import Effectus.Lib.Json
import Mathlib.Logic.Relation

/-!
`encoding/json` into types that are known beforehand. A member of an object goes to the struct field of its name or, failing
that, to one whose name differs only in case, so two members of one object can go to one field. What is decoded does not
depend on the order of members as long as no two of them do.
-/

namespace Effectus

namespace JsonSchema

/-! ### Values -/

/-- A value of a known type. Nil slices and maps are told apart from empty ones; the entries of a map come in key order. -/
inductive Value where
  | string (t : Text)
  | bool (b : Bool)
  | uint (n : Nat)
  | nilSlice
  | slice (items : List Value)
  | nilMap
  | map (entries : List (Text × Value))
  | struct (fields : List (Text × Value))

namespace Value

def items : Value → List Value
  | .slice items => items
  | _ => []

def entries : Value → List (Text × Value)
  | .map entries => entries
  | _ => []

def fields : Value → List (Text × Value)
  | .struct fields => fields
  | _ => []

def text : Value → Text
  | .string t => t
  | _ => []

def flag : Value → Bool
  | .bool b => b
  | _ => false

def number : Value → Nat
  | .uint n => n
  | _ => 0

/-- A field of a struct. -/
def field (v : Value) (name : Text) : Value := (Assoc.get? v.fields name).getD .nilMap

def texts (v : Value) : List Text := v.items.map text

/-- The entries of a map. -/
def dict {α : Type} (f : Value → α) (v : Value) : Dict Text α := .ofEntries (v.entries.map fun entry => (entry.1, f entry.2))

end Value

/-- A type. The fields `omitEmpty` names are left out when written empty. `own` is a struct that decodes itself: from its
zero value, and then checked. -/
inductive Schema where
  | string
  | bool
  | uint (bits : Nat)
  | slice (element : Schema)
  | map (element : Schema)
  | struct (fields : List (Text × Schema)) (omitEmpty : List Text)
  | own (fields : List (Text × Schema)) (omitEmpty : List Text) (isValid : Value → Bool)

mutual

def zero : Schema → Value
  | .string => .string []
  | .bool => .bool false
  | .uint _ => .uint 0
  | .slice _ => .nilSlice
  | .map _ => .nilMap
  | .struct fields _ => .struct (zeroFields fields)
  | .own fields _ _ => .struct (zeroFields fields)

def zeroFields : List (Text × Schema) → List (Text × Value)
  | [] => []
  | (name, schema) :: rest => (name, zero schema) :: zeroFields rest

end

/-! ### Names -/

/-- `foldName` on the runes that fold to ASCII letters; no other rune matches an ASCII name. -/
def foldName : Text → Text
  | 0xC5 :: 0xBF :: t => 0x53 :: foldName t
  | 0xE2 :: 0x84 :: 0xAA :: t => 0x4B :: foldName t
  | b :: t => (if 0x61 ≤ b ∧ b ≤ 0x7A then b - 0x20 else b) :: foldName t
  | [] => []

/-- The field a member goes to: that of its name, or the first whose name is the same but for case. -/
def fieldOf (fields : List (Text × Schema)) (name : Text) : Option (Text × Schema) :=
  (fields.find? fun field => field.1 == name).or (fields.find? fun field => foldName field.1 == foldName name)

/-! ### Decoding -/

/-- `strconv.ParseUint(_, 10, 64)`. -/
def parseUint (t : Text) : Option Nat :=
  if t = [] ∨ t.all Text.isDigit = false then none
  else some (Text.digitsValue 0 t)

/-- Null leaves a value alone, unless its type can be nil or decodes itself. -/
def decodeNull (old : Value) : Schema → Option Value
  | .slice _ => some .nilSlice
  | .map _ => some .nilMap
  | .own fields _ isValid => (some (.struct (zeroFields fields))).filter isValid
  | _ => some old

/-- Assignment to a field. -/
def assign (fields : List (Text × Value)) (name : Text) (v : Value) : List (Text × Value) :=
  fields.map fun field => if field.1 = name then (name, v) else field

mutual

/-- One document over a value of the type, with `DisallowUnknownFields`. -/
def decode (schema : Schema) (old : Value) : Json → Option Value
  | .null => decodeNull old schema
  | .bool b => match schema with | .bool => some (.bool b) | _ => none
  | .num n =>
    match schema with
    | .uint bits => ((parseUint n.text).filter fun k => decide (k < 2 ^ bits)).map .uint
    | _ => none
  | .str s => match schema with | .string => some (.string s.bytes) | _ => none
  | .arr items => match schema with | .slice element => (decodeItems element old.items items).map .slice | _ => none
  | .obj members =>
    match schema with
    | .map element => (decodeEntries element old.entries members).map .map
    | .struct fields _ => (decodeFields fields old.fields members).map .struct
    | .own fields _ isValid => ((decodeFields fields (zeroFields fields) members).map .struct).filter isValid
    | _ => none

/-- Items go over those that are there. -/
def decodeItems (element : Schema) (old : List Value) : List Json → Option (List Value)
  | [] => some []
  | item :: items =>
    match decode element (old.head?.getD (zero element)) item, decodeItems element old.tail items with
    | some v, some vs => some (v :: vs)
    | _, _ => none

/-- Entries are added to those that are there, each from the zero value. -/
def decodeEntries (element : Schema) (entries : List (Text × Value)) :
    List (Utf8Text × Json) → Option (List (Text × Value))
  | [] => some entries
  | (name, item) :: members =>
    match decode element (zero element) item with
    | some v => decodeEntries element (Assoc.set entries name.bytes v) members
    | none => none

/-- Each member goes to its field; one that has none is an error. -/
def decodeFields (fields : List (Text × Schema)) (values : List (Text × Value)) :
    List (Utf8Text × Json) → Option (List (Text × Value))
  | [] => some values
  | (name, item) :: members =>
    match fieldOf fields name.bytes with
    | none => none
    | some (field, schema) =>
      match decode schema ((Assoc.get? values field).getD (zero schema)) item with
      | some v => decodeFields fields (assign values field v) members
      | none => none

end

mutual

/-- A document without the members that go to no field: what is decoded of it where unknown fields are let pass. -/
def known (schema : Schema) : Json → Json
  | .arr items => match schema with | .slice element => .arr (knownItems element items) | _ => .arr items
  | .obj members =>
    match schema with
    | .map element => .obj (knownEntries element members)
    | .struct fields _ => .obj (knownFields fields members)
    | _ => .obj members
  | x => x

def knownItems (element : Schema) : List Json → List Json
  | [] => []
  | item :: items => known element item :: knownItems element items

def knownEntries (element : Schema) : List (Utf8Text × Json) → List (Utf8Text × Json)
  | [] => []
  | (name, item) :: members => (name, known element item) :: knownEntries element members

def knownFields (fields : List (Text × Schema)) : List (Utf8Text × Json) → List (Utf8Text × Json)
  | [] => []
  | (name, item) :: members =>
    match fieldOf fields name.bytes with
    | none => knownFields fields members
    | some (_, schema) => (name, known schema item) :: knownFields fields members

end

/-! ### Fields that are assigned once -/

/-- The field a member goes to. -/
def targetOf (fields : List (Text × Schema)) (member : Utf8Text × Json) : Option Text :=
  (fieldOf fields member.1.bytes).map Prod.fst

mutual

/-- No struct field is assigned from two members, at any level. -/
def AssignsOnce (schema : Schema) : Json → Prop
  | .arr items => match schema with | .slice element => AssignsOnceItems element items | _ => True
  | .obj members =>
    match schema with
    | .map element => AssignsOnceEntries element members
    | .struct fields _ | .own fields _ _ =>
      (members.filterMap (targetOf fields)).Nodup ∧ AssignsOnceFields fields members
    | _ => True
  | _ => True

def AssignsOnceItems (element : Schema) : List Json → Prop
  | [] => True
  | item :: items => AssignsOnce element item ∧ AssignsOnceItems element items

def AssignsOnceEntries (element : Schema) : List (Utf8Text × Json) → Prop
  | [] => True
  | (_, item) :: members => AssignsOnce element item ∧ AssignsOnceEntries element members

def AssignsOnceFields (fields : List (Text × Schema)) : List (Utf8Text × Json) → Prop
  | [] => True
  | (name, item) :: members =>
    (match fieldOf fields name.bytes with | some (_, schema) => AssignsOnce schema item | none => True) ∧
      AssignsOnceFields fields members

end

theorem assignsOnceItems_iff {element : Schema} {items : List Json} :
    AssignsOnceItems element items ↔ ∀ item ∈ items, AssignsOnce element item := by
  induction items with
  | nil => simp [AssignsOnceItems]
  | cons item items ih => rw [AssignsOnceItems, ih, List.forall_mem_cons]

theorem assignsOnceEntries_iff {element : Schema} {members : List (Utf8Text × Json)} :
    AssignsOnceEntries element members ↔ ∀ member ∈ members, AssignsOnce element member.2 := by
  induction members with
  | nil => simp [AssignsOnceEntries]
  | cons member members ih => rw [AssignsOnceEntries, ih, List.forall_mem_cons]

theorem assignsOnceFields_iff {fields : List (Text × Schema)} {members : List (Utf8Text × Json)} :
    AssignsOnceFields fields members ↔
      ∀ member ∈ members, ∀ field schema, fieldOf fields member.1.bytes = some (field, schema) →
        AssignsOnce schema member.2 := by
  induction members with
  | nil => simp [AssignsOnceFields]
  | cons member members ih =>
    obtain ⟨name, item⟩ := member
    rw [AssignsOnceFields, ih, List.forall_mem_cons]
    refine and_congr_left fun _ => ?_
    cases h : fieldOf fields name.bytes with
    | none => simp
    | some found => exact ⟨fun ha _ _ he => by cases he; exact ha, fun ha => ha _ _ rfl⟩

end JsonSchema

/-! ### The order of members -/

/-- Two members of an object change places, somewhere in the document. -/
inductive Json.Swaps : Json → Json → Prop
  | here (front back : List (Utf8Text × Json)) (a b : Utf8Text × Json) :
    Swaps (.obj (front ++ a :: b :: back)) (.obj (front ++ b :: a :: back))
  | item (front back : List Json) {x y : Json} (h : Swaps x y) :
    Swaps (.arr (front ++ x :: back)) (.arr (front ++ y :: back))
  | member (front back : List (Utf8Text × Json)) (name : Utf8Text) {x y : Json} (h : Swaps x y) :
    Swaps (.obj (front ++ (name, x) :: back)) (.obj (front ++ (name, y) :: back))

/-- The members of the objects of a document in some other order. -/
def Json.Reorders : Json → Json → Prop := Relation.ReflTransGen Swaps

mutual

/-- No object has two members of one name. -/
def Json.namesOnce : Json → Bool
  | .arr items => namesOnceItems items
  | .obj members => decide (members.map Prod.fst).Nodup && namesOnceMembers members
  | _ => true

def Json.namesOnceItems : List Json → Bool
  | [] => true
  | item :: items => namesOnce item && namesOnceItems items

def Json.namesOnceMembers : List (Utf8Text × Json) → Bool
  | [] => true
  | (_, item) :: members => namesOnce item && namesOnceMembers members

end

theorem Json.namesOnceItems_iff {items : List Json} :
    namesOnceItems items = true ↔ ∀ item ∈ items, item.namesOnce = true := by
  induction items with
  | nil => simp [namesOnceItems]
  | cons item items ih => rw [namesOnceItems, Bool.and_eq_true, ih, List.forall_mem_cons]

theorem Json.namesOnceMembers_iff {members : List (Utf8Text × Json)} :
    namesOnceMembers members = true ↔ ∀ member ∈ members, member.2.namesOnce = true := by
  induction members with
  | nil => simp [namesOnceMembers]
  | cons member members ih => rw [namesOnceMembers, Bool.and_eq_true, ih, List.forall_mem_cons]

theorem Json.namesOnce_obj {members : List (Utf8Text × Json)} :
    (Json.obj members).namesOnce = true ↔
      (members.map Prod.fst).Nodup ∧ ∀ member ∈ members, member.2.namesOnce = true := by
  rw [namesOnce, Bool.and_eq_true, decide_eq_true_eq, namesOnceMembers_iff]

theorem forall_mem_replace {α : Type} {P : α → Prop} {front back : List α} {x y : α} (h : ∀ a ∈ front ++ x :: back, P a)
    (hy : P y) : ∀ a ∈ front ++ y :: back, P a := by
  simp only [List.mem_append, List.mem_cons] at h ⊢
  rintro a (ha | rfl | ha)
  · exact h a (.inl ha)
  · exact hy
  · exact h a (.inr (.inr ha))

theorem perm_swap {α : Type} (front back : List α) (a b : α) : (front ++ b :: a :: back).Perm (front ++ a :: b :: back) :=
  (List.Perm.swap a b back).append_left front

theorem Json.Swaps.namesOnce {x y : Json} (h : Swaps x y) (hx : x.namesOnce = true) : y.namesOnce = true := by
  induction h with
  | here front back a b =>
    rw [namesOnce_obj] at hx ⊢
    have hp := perm_swap front back a b
    exact ⟨(hp.map _).nodup_iff.2 hx.1, fun member hm => hx.2 member (hp.mem_iff.1 hm)⟩
  | item front back h ih =>
    rw [Json.namesOnce, namesOnceItems_iff] at hx ⊢
    exact forall_mem_replace hx (ih (hx _ (List.mem_append_right _ (List.mem_cons_self ..))))
  | member front back name h ih =>
    rw [namesOnce_obj] at hx ⊢
    have hnext := ih (hx.2 _ (List.mem_append_right _ (List.mem_cons_self ..)))
    exact ⟨by simpa using hx.1, forall_mem_replace (P := fun m : Utf8Text × Json => m.2.namesOnce = true) hx.2 hnext⟩

namespace JsonSchema

theorem decodeEntries_append {element : Schema} : ∀ {front back : List (Utf8Text × Json)} {entries : List (Text × Value)},
    decodeEntries element entries (front ++ back) =
      (decodeEntries element entries front).bind fun entries => decodeEntries element entries back
  | [], _, _ => rfl
  | (name, item) :: front, back, entries => by
    rw [List.cons_append, decodeEntries, decodeEntries]
    cases decode element (zero element) item with
    | none => rfl
    | some v => exact decodeEntries_append

theorem decodeFields_append {fields : List (Text × Schema)} : ∀ {front back : List (Utf8Text × Json)}
    {values : List (Text × Value)}, decodeFields fields values (front ++ back) =
      (decodeFields fields values front).bind fun values => decodeFields fields values back
  | [], _, _ => rfl
  | (name, item) :: front, back, values => by
    rw [List.cons_append, decodeFields, decodeFields]
    cases fieldOf fields name.bytes with
    | none => rfl
    | some found =>
      obtain ⟨field, schema⟩ := found
      dsimp only
      cases decode schema ((Assoc.get? values field).getD (zero schema)) item with
      | none => rfl
      | some v => exact decodeFields_append

theorem get?_assign {values : List (Text × Value)} {field other : Text} {v : Value} (h : field ≠ other) :
    Assoc.get? (assign values field v) other = Assoc.get? values other := by
  induction values with
  | nil => rfl
  | cons x values ih =>
    obtain ⟨name, w⟩ := x
    rw [assign, List.map_cons, ← assign]
    dsimp only
    split
    · rename_i hname
      rw [Assoc.get?_cons, Assoc.get?_cons, if_neg h, if_neg (hname ▸ h), ih]
    · rw [Assoc.get?_cons, Assoc.get?_cons, ih]

theorem assign_comm {values : List (Text × Value)} {field other : Text} {v w : Value} (h : field ≠ other) :
    assign (assign values field v) other w = assign (assign values other w) field v := by
  unfold assign
  rw [List.map_map, List.map_map]
  refine List.map_congr_left fun x _ => ?_
  dsimp only [Function.comp_apply]
  by_cases hfield : x.1 = field
  · rw [if_pos hfield, if_neg h, if_neg fun he => h (hfield.symm.trans he), if_pos hfield]
  · rw [if_neg hfield]
    by_cases hother : x.1 = other
    · rw [if_pos hother, if_neg h.symm]
    · rw [if_neg hother, if_neg hfield]

/-- Two entries of a map, in either order. -/
theorem decodeEntries_swap {element : Schema} {entries : List (Text × Value)} {a b : Utf8Text × Json} (h : a.1 ≠ b.1)
    (back : List (Utf8Text × Json)) :
    decodeEntries element entries (a :: b :: back) = decodeEntries element entries (b :: a :: back) := by
  have hbytes : a.1.bytes ≠ b.1.bytes := fun he => h (Utf8Text.ext he)
  simp only [decodeEntries]
  cases decode element (zero element) a.2 with
  | none => cases decode element (zero element) b.2 <;> rfl
  | some v =>
    cases decode element (zero element) b.2 with
    | none => rfl
    | some w =>
      dsimp only
      rw [Assoc.set_comm hbytes]

/-- Two members of a struct that go to different fields, in either order. -/
theorem decodeFields_swap {fields : List (Text × Schema)} {values : List (Text × Value)} {a b : Utf8Text × Json}
    (h : ∀ f g, targetOf fields a = some f → targetOf fields b = some g → f ≠ g)
    (back : List (Utf8Text × Json)) :
    decodeFields fields values (a :: b :: back) = decodeFields fields values (b :: a :: back) := by
  simp only [decodeFields]
  cases ha : fieldOf fields a.1.bytes with
  | none =>
    dsimp only
    split
    · rfl
    · split <;> rfl
  | some found =>
    obtain ⟨f, sa⟩ := found
    dsimp only
    cases hb : fieldOf fields b.1.bytes with
    | none =>
      dsimp only
      split <;> rfl
    | some other =>
      obtain ⟨g, sb⟩ := other
      have hne : f ≠ g := h f g (by rw [targetOf, ha]; rfl) (by rw [targetOf, hb]; rfl)
      dsimp only
      cases hv : decode sa ((Assoc.get? values f).getD (zero sa)) a.2 with
      | none =>
        dsimp only
        split
        · rw [get?_assign hne.symm, hv]
        · rfl
      | some v =>
        dsimp only
        rw [get?_assign hne]
        cases decode sb ((Assoc.get? values g).getD (zero sb)) b.2 with
        | none => rfl
        | some w =>
          dsimp only
          rw [get?_assign hne.symm, hv, assign_comm hne]

theorem decodeItems_replace {element : Schema} {x y : Json} (h : ∀ old, decode element old x = decode element old y) :
    ∀ (front back : List Json) (old : List Value),
      decodeItems element old (front ++ x :: back) = decodeItems element old (front ++ y :: back)
  | [], back, old => by
    simp only [List.nil_append, decodeItems]
    rw [h]
  | item :: front, back, old => by
    simp only [List.cons_append, decodeItems]
    rw [decodeItems_replace h front back old.tail]

theorem decodeEntries_replace {element : Schema} {name : Utf8Text} {x y : Json}
    (h : ∀ old, decode element old x = decode element old y) (front back : List (Utf8Text × Json))
    (entries : List (Text × Value)) :
    decodeEntries element entries (front ++ (name, x) :: back) =
      decodeEntries element entries (front ++ (name, y) :: back) := by
  rw [decodeEntries_append, decodeEntries_append]
  refine congrArg _ (funext fun entries => ?_)
  rw [decodeEntries, decodeEntries, h]

theorem decodeFields_replace {fields : List (Text × Schema)} {name : Utf8Text} {x y : Json}
    (h : ∀ field schema, fieldOf fields name.bytes = some (field, schema) → ∀ old, decode schema old x = decode schema old y)
    (front back : List (Utf8Text × Json)) (values : List (Text × Value)) :
    decodeFields fields values (front ++ (name, x) :: back) = decodeFields fields values (front ++ (name, y) :: back) := by
  rw [decodeFields_append, decodeFields_append]
  refine congrArg _ (funext fun values => ?_)
  rw [decodeFields, decodeFields]
  cases hfield : fieldOf fields name.bytes with
  | none => rfl
  | some found =>
    dsimp only
    rw [h _ _ hfield]

/-- What exchanging two members of a struct's object keeps. -/
structure SameFields (fields : List (Text × Schema)) (xs ys : List (Utf8Text × Json)) : Prop where
  decoded : ∀ values, decodeFields fields values xs = decodeFields fields values ys
  targets : (ys.filterMap (targetOf fields)).Nodup
  below : AssignsOnceFields fields ys

theorem sameFields_swap {fields : List (Text × Schema)} {front back : List (Utf8Text × Json)} {a b : Utf8Text × Json}
    (h : ((front ++ a :: b :: back).filterMap (targetOf fields)).Nodup)
    (hbelow : AssignsOnceFields fields (front ++ a :: b :: back)) :
    SameFields fields (front ++ a :: b :: back) (front ++ b :: a :: back) := by
  have hp := perm_swap front back a b
  have hne : ∀ f g, targetOf fields a = some f → targetOf fields b = some g → f ≠ g := by
    rintro f g hf hg rfl
    rw [List.filterMap_append, List.filterMap_cons_some hf, List.filterMap_cons_some hg] at h
    exact (List.nodup_cons.1 (List.nodup_append.1 h).2.1).1 (List.mem_cons_self ..)
  refine ⟨fun values => ?_, (hp.filterMap _).nodup_iff.2 h, ?_⟩
  · rw [decodeFields_append, decodeFields_append]
    exact congrArg _ (funext fun values => decodeFields_swap hne back)
  · rw [assignsOnceFields_iff] at hbelow ⊢
    exact fun member hm => hbelow member (hp.mem_iff.1 hm)

theorem sameFields_replace {fields : List (Text × Schema)} {front back : List (Utf8Text × Json)} {name : Utf8Text}
    {x y : Json} (h : ((front ++ (name, x) :: back).filterMap (targetOf fields)).Nodup)
    (hbelow : AssignsOnceFields fields (front ++ (name, x) :: back))
    (hxy : ∀ {schema}, AssignsOnce schema x → (∀ old, decode schema old x = decode schema old y) ∧ AssignsOnce schema y) :
    SameFields fields (front ++ (name, x) :: back) (front ++ (name, y) :: back) := by
  rw [assignsOnceFields_iff] at hbelow
  have hx := hbelow _ (List.mem_append_right _ (List.mem_cons_self ..))
  refine ⟨decodeFields_replace (fun field schema hf => (hxy (hx field schema hf)).1) front back, ?_, ?_⟩
  · simpa [List.filterMap_cons, targetOf] using h
  · rw [assignsOnceFields_iff]
    exact forall_mem_replace hbelow fun field schema hf => (hxy (hx field schema hf)).2

/-- Where no struct field is assigned twice, exchanging two members changes nothing. -/
theorem decode_swaps {x y : Json} (h : x.Swaps y) (hnames : x.namesOnce = true) : ∀ {schema : Schema}, AssignsOnce schema x →
    (∀ old, decode schema old x = decode schema old y) ∧ AssignsOnce schema y := by
  induction h with
  | here front back a b =>
    intro schema honce
    cases schema with
    | string | bool | uint | slice => exact ⟨fun _ => rfl, trivial⟩
    | map element =>
      have hne : a.1 ≠ b.1 := by
        have hnodup := (Json.namesOnce_obj.1 hnames).1
        rw [List.map_append] at hnodup
        exact fun he => (List.nodup_cons.1 (List.nodup_append.1 hnodup).2.1).1 (he ▸ List.mem_cons_self ..)
      refine ⟨fun old => ?_, ?_⟩
      · rw [decode, decode]
        rw [decodeEntries_append, decodeEntries_append]
        exact congrArg _ (congrArg _ (funext fun entries => decodeEntries_swap hne back))
      · rw [AssignsOnce, assignsOnceEntries_iff] at honce ⊢
        exact fun member hm => honce member ((perm_swap front back a b).mem_iff.1 hm)
    | struct fields omitEmpty =>
      have hsame := sameFields_swap honce.1 honce.2
      refine ⟨fun old => ?_, hsame.targets, hsame.below⟩
      rw [decode, decode]
      rw [hsame.decoded]
    | own fields omitEmpty isValid =>
      have hsame := sameFields_swap honce.1 honce.2
      refine ⟨fun old => ?_, hsame.targets, hsame.below⟩
      rw [decode, decode]
      rw [hsame.decoded]
  | @item front back x y h ih =>
    intro schema honce
    rw [Json.namesOnce, Json.namesOnceItems_iff] at hnames
    have hx := hnames x (List.mem_append_right _ (List.mem_cons_self ..))
    cases schema with
    | string | bool | uint | map | struct | own => exact ⟨fun _ => rfl, trivial⟩
    | slice element =>
      rw [AssignsOnce, assignsOnceItems_iff] at honce
      have hsame := ih hx (honce x (List.mem_append_right _ (List.mem_cons_self ..)))
      refine ⟨fun old => ?_, ?_⟩
      · rw [decode, decode]
        rw [decodeItems_replace hsame.1]
      · rw [AssignsOnce, assignsOnceItems_iff]
        exact forall_mem_replace honce hsame.2
  | @member front back name x y h ih =>
    intro schema honce
    have hx := (Json.namesOnce_obj.1 hnames).2 _ (List.mem_append_right _ (List.mem_cons_self ..))
    cases schema with
    | string | bool | uint | slice => exact ⟨fun _ => rfl, trivial⟩
    | map element =>
      rw [AssignsOnce, assignsOnceEntries_iff] at honce
      have hsame := ih hx (honce (name, x) (List.mem_append_right _ (List.mem_cons_self ..)))
      refine ⟨fun old => ?_, ?_⟩
      · rw [decode, decode]
        rw [decodeEntries_replace hsame.1]
      · rw [AssignsOnce, assignsOnceEntries_iff]
        exact forall_mem_replace honce hsame.2
    | struct fields omitEmpty =>
      have hsame := sameFields_replace honce.1 honce.2 (ih hx)
      refine ⟨fun old => ?_, hsame.targets, hsame.below⟩
      rw [decode, decode]
      rw [hsame.decoded]
    | own fields omitEmpty isValid =>
      have hsame := sameFields_replace honce.1 honce.2 (ih hx)
      refine ⟨fun old => ?_, hsame.targets, hsame.below⟩
      rw [decode, decode]
      rw [hsame.decoded]

theorem decode_reorders {x y : Json} (h : x.Reorders y) (hnames : x.namesOnce = true) {schema : Schema}
    (honce : AssignsOnce schema x) :
    (∀ old, decode schema old x = decode schema old y) ∧ y.namesOnce = true := by
  suffices hall : (∀ old, decode schema old x = decode schema old y) ∧ AssignsOnce schema y ∧ y.namesOnce = true from
    ⟨hall.1, hall.2.2⟩
  induction h with
  | refl => exact ⟨fun _ => rfl, honce, hnames⟩
  | tail _ hstep ih =>
    obtain ⟨hsame, honce, hnames⟩ := ih
    have hnext := decode_swaps hstep hnames honce
    exact ⟨fun old => (hsame old).trans (hnext.1 old), hnext.2, hstep.namesOnce hnames⟩

/-! ### Names that differ only in case -/

mutual

/-- No two members of a struct's object have names that are the same but for case, at any level. -/
def FoldsApart (schema : Schema) : Json → Prop
  | .arr items => match schema with | .slice element => FoldsApartItems element items | _ => True
  | .obj members =>
    match schema with
    | .map element => FoldsApartEntries element members
    | .struct fields _ | .own fields _ _ =>
      (members.map fun member => foldName member.1.bytes).Nodup ∧ FoldsApartFields fields members
    | _ => True
  | _ => True

def FoldsApartItems (element : Schema) : List Json → Prop
  | [] => True
  | item :: items => FoldsApart element item ∧ FoldsApartItems element items

def FoldsApartEntries (element : Schema) : List (Utf8Text × Json) → Prop
  | [] => True
  | (_, item) :: members => FoldsApart element item ∧ FoldsApartEntries element members

def FoldsApartFields (fields : List (Text × Schema)) : List (Utf8Text × Json) → Prop
  | [] => True
  | (name, item) :: members =>
    (match fieldOf fields name.bytes with | some (_, schema) => FoldsApart schema item | none => True) ∧
      FoldsApartFields fields members

end

mutual

/-- No two fields of a struct have names that are the same but for case, at any level. -/
def Schema.Apart : Schema → Prop
  | .slice element => element.Apart
  | .map element => element.Apart
  | .struct fields _ | .own fields _ _ => (fields.map fun field => foldName field.1).Nodup ∧ ApartFields fields
  | _ => True

def Schema.ApartFields : List (Text × Schema) → Prop
  | [] => True
  | (_, schema) :: fields => schema.Apart ∧ ApartFields fields

end

theorem Schema.apartFields_iff {fields : List (Text × Schema)} :
    ApartFields fields ↔ ∀ field ∈ fields, field.2.Apart := by
  induction fields with
  | nil => simp [ApartFields]
  | cons field fields ih => rw [ApartFields, ih, List.forall_mem_cons]

theorem fieldOf_spec {fields : List (Text × Schema)} {name : Text} {found : Text × Schema}
    (h : fieldOf fields name = some found) : found ∈ fields ∧ foldName found.1 = foldName name := by
  rcases Option.or_eq_some_iff.1 h with h | ⟨-, h⟩
  · have hname := List.find?_some h
    exact ⟨List.mem_of_find?_eq_some h, congrArg foldName (beq_iff_eq.1 hname)⟩
  · have hname := List.find?_some h
    exact ⟨List.mem_of_find?_eq_some h, beq_iff_eq.1 hname⟩

/-- Every member of an object that decodes has its field, and decodes to it. -/
theorem decodeFields_some {fields : List (Text × Schema)} {members : List (Utf8Text × Json)} :
    ∀ {values out : List (Text × Value)}, decodeFields fields values members = some out → ∀ member ∈ members,
      ∃ found old v, fieldOf fields member.1.bytes = some found ∧ decode found.2 old member.2 = some v := by
  induction members with
  | nil => exact fun _ _ hm => nomatch hm
  | cons first members ih =>
    intro values out h
    rw [decodeFields] at h
    cases hfield : fieldOf fields first.1.bytes with
    | none =>
      rw [hfield] at h
      cases h
    | some found =>
      rw [hfield] at h
      dsimp only at h
      split at h
      · rename_i v hv
        exact List.forall_mem_cons.2 ⟨⟨found, _, v, hfield, hv⟩, ih h⟩
      · cases h

theorem decodeEntries_some {element : Schema} {members : List (Utf8Text × Json)} :
    ∀ {entries out : List (Text × Value)}, decodeEntries element entries members = some out → ∀ member ∈ members,
      ∃ old v, decode element old member.2 = some v := by
  induction members with
  | nil => exact fun _ _ hm => nomatch hm
  | cons first members ih =>
    intro entries out h
    rw [decodeEntries] at h
    split at h
    · rename_i v hv
      exact List.forall_mem_cons.2 ⟨⟨_, v, hv⟩, ih h⟩
    · cases h

theorem decodeItems_some {element : Schema} {items : List Json} :
    ∀ {old out : List Value}, decodeItems element old items = some out → ∀ item ∈ items,
      ∃ old v, decode element old item = some v := by
  induction items with
  | nil => exact fun _ _ hm => nomatch hm
  | cons first items ih =>
    intro old out h
    rw [decodeItems] at h
    split at h
    · rename_i v _ hv hrest
      exact List.forall_mem_cons.2 ⟨⟨_, v, hv⟩, ih hrest⟩
    · cases h

/-- Members that all have a field go to different ones exactly if their names differ in more than case. -/
theorem targets_nodup {fields : List (Text × Schema)} (hapart : (fields.map fun field => foldName field.1).Nodup) :
    ∀ {members : List (Utf8Text × Json)}, (∀ member ∈ members, ∃ found, fieldOf fields member.1.bytes = some found) →
      ((members.filterMap (targetOf fields)).Nodup ↔ (members.map fun member => foldName member.1.bytes).Nodup) := by
  intro members hfound
  have htargets : (members.filterMap (targetOf fields)).map foldName = members.map fun member => foldName member.1.bytes := by
    induction members with
    | nil => rfl
    | cons first members ih =>
      obtain ⟨found, hf⟩ := hfound first (List.mem_cons_self ..)
      have htarget : targetOf fields first = some found.1 := by rw [targetOf, hf]; rfl
      rw [List.filterMap_cons_some htarget, List.map_cons, List.map_cons, (fieldOf_spec hf).2,
        ih fun member hm => hfound member (List.mem_cons_of_mem _ hm)]
  have hinj : ∀ f ∈ members.filterMap (targetOf fields), ∀ g ∈ members.filterMap (targetOf fields),
      foldName f = foldName g → f = g := by
    have hmem : ∀ f ∈ members.filterMap (targetOf fields), ∃ schema, (f, schema) ∈ fields := by
      intro f hf
      obtain ⟨member, -, htarget⟩ := List.mem_filterMap.1 hf
      obtain ⟨found, hfield, rfl⟩ := Option.map_eq_some_iff.1 htarget
      exact ⟨found.2, (fieldOf_spec hfield).1⟩
    intro f hf g hg he
    obtain ⟨sf, hf⟩ := hmem f hf
    obtain ⟨sg, hg⟩ := hmem g hg
    exact congrArg Prod.fst (List.inj_on_of_nodup_map hapart hf hg he)
  rw [← htargets]
  exact ⟨fun h => h.map_on hinj, fun h => h.of_map _⟩

mutual

/-- In a document that decodes, fields are assigned once exactly if the names of members differ in more than case. -/
theorem assignsOnce_iff : ∀ (x : Json) {schema : Schema}, schema.Apart → (∃ old v, decode schema old x = some v) →
    (AssignsOnce schema x ↔ FoldsApart schema x)
  | .null, _, _, _ | .bool _, _, _, _ | .num _, _, _, _ | .str _, _, _, _ => Iff.rfl
  | .arr items, schema, hapart, ⟨old, v, h⟩ => by
    cases schema with
    | slice element =>
      obtain ⟨_, hitems, -⟩ := Option.map_eq_some_iff.1 h
      exact assignsOnceItems_foldsApart element items hapart (decodeItems_some hitems)
    | string | bool | uint | map | struct | own => exact Iff.rfl
  | .obj members, schema, hapart, ⟨old, v, h⟩ => by
    cases schema with
    | map element =>
      obtain ⟨_, hentries, -⟩ := Option.map_eq_some_iff.1 h
      exact assignsOnceEntries_foldsApart element members hapart (decodeEntries_some hentries)
    | struct fields omitEmpty =>
      obtain ⟨_, hfields, -⟩ := Option.map_eq_some_iff.1 h
      have hsome := decodeFields_some hfields
      exact and_congr (targets_nodup hapart.1 fun member hm => (hsome member hm).imp fun _ h => h.elim fun _ h =>
        h.elim fun _ h => h.1) (assignsOnceFields_foldsApart members hapart.2 hsome)
    | own fields omitEmpty isValid =>
      obtain ⟨_, hfields, -⟩ := Option.map_eq_some_iff.1 (Option.filter_eq_some_iff.1 h).1
      have hsome := decodeFields_some hfields
      exact and_congr (targets_nodup hapart.1 fun member hm => (hsome member hm).imp fun _ h => h.elim fun _ h =>
        h.elim fun _ h => h.1) (assignsOnceFields_foldsApart members hapart.2 hsome)
    | string | bool | uint | slice => exact Iff.rfl

theorem assignsOnceItems_foldsApart (element : Schema) : ∀ items : List Json, element.Apart →
    (∀ item ∈ items, ∃ old v, decode element old item = some v) →
    (AssignsOnceItems element items ↔ FoldsApartItems element items)
  | [], _, _ => Iff.rfl
  | item :: items, hapart, h =>
    and_congr (assignsOnce_iff item hapart (h item (List.mem_cons_self ..)))
      (assignsOnceItems_foldsApart element items hapart fun item hm => h item (List.mem_cons_of_mem _ hm))

theorem assignsOnceEntries_foldsApart (element : Schema) : ∀ members : List (Utf8Text × Json), element.Apart →
    (∀ member ∈ members, ∃ old v, decode element old member.2 = some v) →
    (AssignsOnceEntries element members ↔ FoldsApartEntries element members)
  | [], _, _ => Iff.rfl
  | (name, item) :: members, hapart, h =>
    and_congr (assignsOnce_iff item hapart (h (name, item) (List.mem_cons_self ..)))
      (assignsOnceEntries_foldsApart element members hapart fun member hm => h member (List.mem_cons_of_mem _ hm))

theorem assignsOnceFields_foldsApart : ∀ (members : List (Utf8Text × Json)) {fields : List (Text × Schema)},
    Schema.ApartFields fields →
    (∀ member ∈ members, ∃ found old v, fieldOf fields member.1.bytes = some found ∧ decode found.2 old member.2 = some v) →
    (AssignsOnceFields fields members ↔ FoldsApartFields fields members)
  | [], _, _, _ => Iff.rfl
  | (name, item) :: members, fields, hapart, h => by
    obtain ⟨⟨field, schema⟩, old, v, hfield, hv⟩ := h (name, item) (List.mem_cons_self ..)
    have hschema := Schema.apartFields_iff.1 hapart _ (fieldOf_spec hfield).1
    rw [AssignsOnceFields, FoldsApartFields, hfield]
    exact and_congr (assignsOnce_iff item hschema ⟨old, v, hv⟩)
      (assignsOnceFields_foldsApart members hapart fun member hm => h member (List.mem_cons_of_mem _ hm))

end

end JsonSchema

end Effectus

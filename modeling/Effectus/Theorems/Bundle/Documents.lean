import Effectus.Bundle.Document
import Effectus.Lib.Fallible

/-!
The documents of bundles, part by part: what stands in one reads back as it was. Declarations keep their meaning when empty
fields are left out, and a descriptor keeps everything.
-/

namespace Effectus

open JsonSchema Invocation

/-! ### Reading through what is left out -/

section

variable {P : Text → Prop}

theorem fits_struct {fields : List (Text × Schema)} {omitEmpty : List Text} {v : Value} (h : Fits P (.struct fields omitEmpty) v) :
    ∃ values, v = .struct values ∧ FitsFields P fields values := by
  cases v with
  | struct values => exact ⟨values, rfl, h⟩
  | string | bool | uint | nilSlice | slice | nilMap | map => exact h.elim

theorem fitsFields_cons {field : Text} {schema : Schema} {fields : List (Text × Schema)} {values : List (Text × Value)}
    (h : FitsFields P ((field, schema) :: fields) values) :
    ∃ v rest, values = (field, v) :: rest ∧ Fits P schema v ∧ FitsFields P fields rest := by
  cases values with
  | nil => cases h
  | cons x rest =>
    obtain ⟨name, v⟩ := x
    obtain ⟨rfl, hv, hrest⟩ := h
    exact ⟨v, rest, rfl, hv, hrest⟩

theorem fitsFields_nil {values : List (Text × Value)} (h : FitsFields P [] values) : values = [] := by
  cases values with
  | nil => rfl
  | cons x rest => exact h.elim

theorem text_settle {schema : Schema} (v : Value) : (settle schema v).text = v.text := by
  cases v with
  | string | bool | uint | nilSlice | nilMap => rfl
  | slice | map | struct => cases schema <;> rfl

theorem flag_settle {schema : Schema} (v : Value) : (settle schema v).flag = v.flag := by
  cases v with
  | string | bool | uint | nilSlice | nilMap => rfl
  | slice | map | struct => cases schema <;> rfl

theorem number_settle {schema : Schema} (v : Value) : (settle schema v).number = v.number := by
  cases v with
  | string | bool | uint | nilSlice | nilMap => rfl
  | slice | map | struct => cases schema <;> rfl

/-- What reads a settled value as before reads it so also where it may be left out. -/
theorem read_settled {α : Type} (read : Value → α) {schema : Schema} {v : Value} (omitEmpty : List Text) (field : Text)
    (hsettle : read (settle schema v) = read v) (hempty : v.isEmpty = true → read (zero schema) = read v) :
    read (if isOmitted omitEmpty field v then zero schema else settle schema v) = read v := by
  split
  · rename_i h
    exact hempty (Bool.and_eq_true_iff.1 h).2
  · exact hsettle

theorem text_of_isEmpty {v : Value} (h : Fits P .string v) (hempty : v.isEmpty = true) : v.text = [] := by
  cases v with
  | string t => exact of_decide_eq_true hempty
  | bool | uint | nilSlice | slice | nilMap | map | struct => exact h.elim

theorem text_settled {v : Value} (h : Fits P .string v) (omitEmpty : List Text) (field : Text) :
    (if isOmitted omitEmpty field v then zero .string else settle .string v).text = v.text :=
  read_settled Value.text omitEmpty field (text_settle v) fun hempty => (text_of_isEmpty h hempty).symm

theorem entries_of_isEmpty {element : Schema} {v : Value} (h : Fits P (.map element) v) (hempty : v.isEmpty = true) :
    v.entries = [] := by
  cases v with
  | nilMap => rfl
  | map entries => exact List.isEmpty_iff.1 hempty
  | string | bool | uint | nilSlice | slice | struct => exact h.elim

theorem items_of_isEmpty {element : Schema} {v : Value} (h : Fits P (.slice element) v) (hempty : v.isEmpty = true) :
    v.items = [] := by
  cases v with
  | nilSlice => rfl
  | slice items => exact List.isEmpty_iff.1 hempty
  | string | bool | uint | nilMap | map | struct => exact h.elim

theorem settleItems_map {α : Type} {read : Value → α} {element : Schema}
    (hread : ∀ w, Fits P element w → read (settle element w) = read w) : ∀ {items : List Value}, FitsItems P element items →
    (settleItems element items).map read = items.map read := by
  intro items h
  induction items with
  | nil => rfl
  | cons v items ih => rw [settleItems, List.map_cons, List.map_cons, hread v h.1, ih h.2]

theorem settleEntries_map {α : Type} {read : Value → α} {element : Schema}
    (hread : ∀ w, Fits P element w → read (settle element w) = read w) : ∀ {entries : List (Text × Value)},
    FitsEntries P element entries →
    ((settleEntries element entries).map fun entry => (entry.1, read entry.2)) =
      entries.map fun entry => (entry.1, read entry.2) := by
  intro entries h
  induction entries with
  | nil => rfl
  | cons entry entries ih =>
    obtain ⟨name, v⟩ := entry
    simp only [settleEntries, List.map_cons]
    rw [hread v h.2.1, ih h.2.2]

/-- A map whose values read as before. -/
theorem dict_settle {α : Type} {read : Value → α} {element : Schema} {v : Value} (h : Fits P (.map element) v)
    (hread : ∀ w, Fits P element w → read (settle element w) = read w) :
    (settle (.map element) v).dict read = v.dict read := by
  cases v with
  | nilMap => rfl
  | map entries => exact congrArg Dict.ofEntries (settleEntries_map hread h.2)
  | string | bool | uint | nilSlice | slice | struct => exact h.elim

theorem items_settle {α : Type} {read : Value → α} {element : Schema} {v : Value} (h : Fits P (.slice element) v)
    (hread : ∀ w, Fits P element w → read (settle element w) = read w) :
    (settle (.slice element) v).items.map read = v.items.map read := by
  cases v with
  | nilSlice => rfl
  | slice items => exact settleItems_map hread h
  | string | bool | uint | nilMap | map | struct => exact h.elim

end

/-! ### Declarations -/

section

variable {P : Text → Prop}

theorem retryPolicy_settle {v : Value} (h : Fits P retryPolicySchema v) :
    RetryPolicy.ofValue (settle retryPolicySchema v) = .ofValue v := by
  obtain ⟨values, rfl, h⟩ := fits_struct h
  obtain ⟨a, _, rfl, -, h⟩ := fitsFields_cons h
  obtain ⟨b, _, rfl, -, h⟩ := fitsFields_cons h
  obtain ⟨c, _, rfl, -, h⟩ := fitsFields_cons h
  cases fitsFields_nil h
  show RetryPolicy.mk (.ofNat (settle (.uint 32) a).number) (.ofNat (settle (.uint 64) b).number)
    (.ofNat (settle (.uint 64) c).number) = _
  rw [number_settle, number_settle, number_settle]
  rfl

theorem required_settle {v : Value} (h : Fits P (.slice .string) v) : requiredOf (settle (.slice .string) v) = requiredOf v := by
  cases v with
  | nilSlice => rfl
  | slice items => exact congrArg some (settleItems_map (fun w _ => text_settle w) h)
  | string | bool | uint | nilMap | map | struct => exact h.elim

theorem verbContract_settle {v : Value} (h : Fits P verbContractSchema v) :
    VerbContract.ofValue (settle verbContractSchema v) = .ofValue v := by
  obtain ⟨values, rfl, h⟩ := fits_struct h
  obtain ⟨arguments, _, rfl, harguments, h⟩ := fitsFields_cons h
  obtain ⟨required, _, rfl, hrequired, h⟩ := fitsFields_cons h
  obtain ⟨result, _, rfl, -, h⟩ := fitsFields_cons h
  obtain ⟨inverse, _, rfl, hinverse, h⟩ := fitsFields_cons h
  obtain ⟨retry, _, rfl, hretry, h⟩ := fitsFields_cons h
  obtain ⟨policy, _, rfl, -, h⟩ := fitsFields_cons h
  obtain ⟨fencing, _, rfl, -, h⟩ := fitsFields_cons h
  cases fitsFields_nil h
  show VerbContract.mk ((settle (.map .string) arguments).dict Value.text) (requiredOf (settle (.slice .string) required))
    (settle .string result).text
    (if isOmitted ["inverse_verb"] "inverse_verb" inverse then zero .string else settle .string inverse).text
    (.ofValue (settle retryPolicySchema retry)) (settle .string policy).text (settle .bool fencing).flag = _
  rw [dict_settle harguments fun w _ => text_settle w, required_settle hrequired, text_settle, retryPolicy_settle hretry,
    text_settle, flag_settle, text_settled hinverse]
  rfl

theorem functionContract_settle {v : Value} (h : Fits P functionContractSchema v) :
    FunctionContract.ofValue (settle functionContractSchema v) = .ofValue v := by
  obtain ⟨values, rfl, h⟩ := fits_struct h
  obtain ⟨types, _, rfl, htypes, h⟩ := fitsFields_cons h
  obtain ⟨result, _, rfl, -, h⟩ := fitsFields_cons h
  obtain ⟨pure, _, rfl, -, h⟩ := fitsFields_cons h
  obtain ⟨total, _, rfl, -, h⟩ := fitsFields_cons h
  cases fitsFields_nil h
  show FunctionContract.mk ((settle (.slice .string) types).items.map Value.text) (settle .string result).text
    (settle .bool pure).flag (settle .bool total).flag = _
  rw [items_settle htypes fun w _ => text_settle w, text_settle, flag_settle, flag_settle]
  rfl

theorem typeDefinition_settle {v : Value} (h : Fits P typeDefinitionSchema v) :
    TypeDefinition.ofValue (settle typeDefinitionSchema v) = .ofValue v := by
  obtain ⟨values, rfl, h⟩ := fits_struct h
  obtain ⟨kind, _, rfl, -, h⟩ := fitsFields_cons h
  obtain ⟨element, _, rfl, helement, h⟩ := fitsFields_cons h
  obtain ⟨fields, _, rfl, hfields, h⟩ := fitsFields_cons h
  obtain ⟨required, _, rfl, hrequired, h⟩ := fitsFields_cons h
  cases fitsFields_nil h
  have hempty : fields.isEmpty = true → (zero (.map .string)).dict Value.text = fields.dict Value.text := by
    intro hempty
    rw [Value.dict, Value.dict, entries_of_isEmpty hfields hempty]
    rfl
  have hnone : required.isEmpty = true → (zero (.slice .string)).texts = required.texts := by
    intro hempty
    rw [Value.texts, Value.texts, items_of_isEmpty hrequired hempty]
    rfl
  have helementText := text_settled helement ["element_type", "fields", "required_fields"] "element_type"
  have hfieldsDict := read_settled (Value.dict Value.text) ["element_type", "fields", "required_fields"] "fields"
    (dict_settle hfields fun w _ => text_settle w) hempty
  have hrequiredTexts := read_settled Value.texts ["element_type", "fields", "required_fields"] "required_fields"
    (items_settle hrequired fun w _ => text_settle w) hnone
  have hall : TypeDefinition.mk (settle .string kind).text _ _ _ = TypeDefinition.mk kind.text _ _ _ :=
    congr (congr (congr (congrArg TypeDefinition.mk (text_settle kind)) helementText) hfieldsDict) hrequiredTexts
  exact hall

/-- Declarations keep their meaning: only which of the empty maps and slices are nil is lost. -/
theorem environment_settle {v : Value} (h : Fits P environmentSchema v) :
    Environment.ofValue (settle environmentSchema v) = .ofValue v := by
  obtain ⟨values, rfl, h⟩ := fits_struct h
  obtain ⟨facts, _, rfl, hfacts, h⟩ := fitsFields_cons h
  obtain ⟨verbs, _, rfl, hverbs, h⟩ := fitsFields_cons h
  obtain ⟨functions, _, rfl, hfunctions, h⟩ := fitsFields_cons h
  obtain ⟨types, _, rfl, htypes, h⟩ := fitsFields_cons h
  cases fitsFields_nil h
  show Environment.mk ((settle (.map .string) facts).dict Value.text)
    ((settle (.map verbContractSchema) verbs).dict VerbContract.ofValue)
    ((settle (.map functionContractSchema) functions).dict FunctionContract.ofValue)
    ((settle (.map typeDefinitionSchema) types).dict TypeDefinition.ofValue) = _
  rw [dict_settle hfacts fun w _ => text_settle w, dict_settle hverbs fun _ => verbContract_settle,
    dict_settle hfunctions fun _ => functionContract_settle, dict_settle htypes fun _ => typeDefinition_settle]
  rfl

end

/-! ### Sound types -/

theorem kvSchema_sound : kvSchema.Sound := ⟨by decide, by decide, trivial, trivial, trivial⟩

theorem environmentSchema_sound : environmentSchema.Sound :=
  ⟨by decide, by decide, trivial,
    ⟨by decide, by decide, trivial, trivial, trivial, trivial, ⟨by decide, by decide, trivial, trivial, trivial, trivial⟩,
      trivial, trivial, trivial⟩,
    ⟨by decide, by decide, trivial, trivial, trivial, trivial, trivial⟩,
    ⟨by decide, by decide, trivial, trivial, trivial, trivial, trivial⟩, trivial⟩

/-- The copy of declarations is what they are read back as. -/
theorem cloneEnvironment_eq {v : Value} (h : Fits IsUtf8 environmentSchema v) :
    cloneEnvironment v = settle environmentSchema v := by
  rw [cloneEnvironment, marshal, Json.readOnly_render (nested_encode v h (by decide)), Option.bind_some,
    decode_encode v environmentSchema_sound h, Option.getD_some]

/-! ### Descriptors -/

namespace Invocation

open Fallible

section

variable [Casing]

/-- Names that pass the checks of a new descriptor pass those of one that is read, where they come in order. -/
theorem checkValues_of_checkNames {headers : Bool} : ∀ {entries : List (Text × Text)} {seen : List (Text × Text)}
    (previous : Option Text), checkNames headers seen (entries.map Prod.fst) = .ok () → Assoc.Ordered entries →
    (∀ name ∈ previous, ∀ entry ∈ entries, name < entry.1) →
    checkValues headers previous seen (entries.map fun entry => ⟨entry.1, entry.2⟩) = .ok ()
  | [], _, _, _, _, _ => rfl
  | (name, value) :: entries, seen, previous, h, hordered, hprevious => by
    rw [List.map_cons, checkNames] at h
    obtain ⟨_, hkey, h⟩ := bind_ok.1 h
    obtain ⟨_, hheader, h⟩ := bind_ok.1 h
    obtain ⟨hfirst, hordered⟩ := List.pairwise_cons.1 hordered
    have hafter : ¬(previous.any fun other => Text.lt other name = false) = true := by
      rw [Option.any_eq_true]
      rintro ⟨other, hother, hlt⟩
      have := hprevious other hother _ (List.mem_cons_self ..)
      simp [Text.lt, this] at hlt
    have hrest := checkValues_of_checkNames (some name) h hordered fun other hother entry hm =>
      Option.mem_some.1 hother ▸ hfirst entry hm
    rw [List.map_cons, checkValues]
    exact bind_ok.2 ⟨_, hkey, guard_ok.2 ⟨hafter, bind_ok.2 ⟨_, hheader, hrest⟩⟩⟩

theorem validateValues_of_canonical {headers : Bool} {values : Dict Text Text} {out : List DescriptorKV}
    (h : canonicalDescriptorValues values headers = .ok out) : validateCanonicalDescriptorValues out headers = .ok () := by
  obtain ⟨_, hnames, h⟩ := bind_ok.1 h
  cases h
  exact checkValues_of_checkNames none hnames values.ordered nofun

/-- What `NewDescriptor` makes is canonical. -/
theorem validate_newDescriptor {spec : DescriptorSpec} {descriptor : DescriptorDocument}
    (h : newDescriptor spec = .ok descriptor) : descriptor.validate = .ok () := by
  obtain ⟨_, htype, h⟩ := bind_ok.1 h
  obtain ⟨_, hreference, h⟩ := bind_ok.1 h
  obtain ⟨headers, hheaders, h⟩ := bind_ok.1 h
  obtain ⟨settings, hsettings, h⟩ := bind_ok.1 h
  cases h
  have htrimmed : ¬(Text.trimSpace spec.resolverID ≠ Text.trimSpace (Text.trimSpace spec.resolverID) ∨
      Text.trimSpace spec.reference ≠ Text.trimSpace (Text.trimSpace spec.reference)) := by
    simp [Text.trimSpace_trimSpace]
  exact bind_ok.2 ⟨_, htype, guard_ok.2 ⟨htrimmed, bind_ok.2 ⟨_, hreference,
    bind_ok.2 ⟨_, validateValues_of_canonical hheaders, validateValues_of_canonical hsettings⟩⟩⟩⟩

end

section

attribute [local instance] asciiCasing

theorem validate_newDescriptor_untrimmed : ∃ descriptor,
    newDescriptor ⟨descriptorHTTP, " local", "warehouse ", .ofEntries [("b", "2"), ("A", "1")], .empty⟩ = .ok descriptor ∧
      descriptor.validate = .ok () := by
  obtain ⟨descriptor, h, -⟩ := ok_of_any (p := fun _ => true) (x := newDescriptor
    ⟨descriptorHTTP, " local", "warehouse ", .ofEntries [("b", "2"), ("A", "1")], .empty⟩) (by decide)
  exact ⟨descriptor, h, validate_newDescriptor h⟩

end

def DescriptorKV.Utf8 (kv : DescriptorKV) : Prop := IsUtf8 kv.name ∧ IsUtf8 kv.value

/-- The texts of a descriptor are UTF-8. -/
structure DescriptorDocument.Utf8 (descriptor : DescriptorDocument) : Prop where
  type : IsUtf8 descriptor.type
  resolverID : IsUtf8 descriptor.resolverID
  reference : IsUtf8 descriptor.reference
  headers : ∀ kv ∈ descriptor.headers, kv.Utf8
  settings : ∀ kv ∈ descriptor.settings, kv.Utf8

theorem fitsItems_map {P : Text → Prop} {α : Type} {element : Schema} {f : α → Value} : ∀ {xs : List α},
    (∀ x ∈ xs, Fits P element (f x)) → FitsItems P element (xs.map f)
  | [], _ => trivial
  | x :: _, h => ⟨h x (List.mem_cons_self ..), fitsItems_map fun y hy => h y (List.mem_cons_of_mem _ hy)⟩

theorem DescriptorKV.fits {kv : DescriptorKV} (h : kv.Utf8) : Fits IsUtf8 kvSchema kv.toValue :=
  ⟨rfl, h.1, rfl, h.2, rfl⟩

theorem DescriptorKV.ofValue_settle (kv : DescriptorKV) : DescriptorKV.ofValue (settle kvSchema kv.toValue) = kv := rfl

theorem settleItems_kvs (kvs : List DescriptorKV) :
    (settleItems kvSchema (kvs.map DescriptorKV.toValue)).map DescriptorKV.ofValue = kvs := by
  induction kvs with
  | nil => rfl
  | cons kv kvs ih =>
    rw [List.map_cons, settleItems, List.map_cons, ih, DescriptorKV.ofValue_settle]

/-- Named values that may be left out. -/
theorem kvs_settled (omitEmpty : List Text) (field : Text) (kvs : List DescriptorKV) :
    ((if isOmitted omitEmpty field (.slice (kvs.map DescriptorKV.toValue)) then zero (.slice kvSchema)
      else settle (.slice kvSchema) (.slice (kvs.map DescriptorKV.toValue))).items.map DescriptorKV.ofValue) = kvs := by
  split
  · rename_i h
    have hnil := List.isEmpty_iff.1 (Bool.and_eq_true_iff.1 h).2
    rw [List.map_eq_nil_iff.1 hnil]
    rfl
  · exact settleItems_kvs kvs

/-- A descriptor is read back as it was. -/
theorem DescriptorDocument.ofValue_settle (descriptor : DescriptorDocument) :
    DescriptorDocument.ofValue (.struct (settleFields descriptorOmitEmpty descriptorFields descriptor.toValue.fields)) =
      descriptor := by
  have hresolver := text_settled (P := fun _ => True) (v := .string descriptor.resolverID) trivial descriptorOmitEmpty
    "resolver_id"
  have hreference := text_settled (P := fun _ => True) (v := .string descriptor.reference) trivial descriptorOmitEmpty
    "reference"
  have hall : DescriptorDocument.mk descriptor.type _ _ _ _ = DescriptorDocument.mk descriptor.type _ _ _ _ :=
    congr (congr (congr (congrArg (DescriptorDocument.mk descriptor.type) hresolver) hreference)
      (kvs_settled descriptorOmitEmpty "headers" descriptor.headers))
      (kvs_settled descriptorOmitEmpty "settings" descriptor.settings)
  exact hall

theorem DescriptorDocument.fits [Casing] {descriptor : DescriptorDocument} (hutf8 : descriptor.Utf8)
    (hvalid : descriptor.validate = .ok ()) : Fits IsUtf8 descriptorSchema descriptor.toValue := by
  refine ⟨⟨rfl, hutf8.type, rfl, hutf8.resolverID, rfl, hutf8.reference,
    rfl, fitsItems_map fun kv hm => DescriptorKV.fits (hutf8.headers kv hm),
    rfl, fitsItems_map fun kv hm => DescriptorKV.fits (hutf8.settings kv hm), rfl⟩, ?_⟩
  show (DescriptorDocument.ofValue (.struct (settleFields descriptorOmitEmpty descriptorFields
    descriptor.toValue.fields))).validate.isOk = true
  rw [descriptor.ofValue_settle, hvalid]
  rfl

end Invocation

end Effectus

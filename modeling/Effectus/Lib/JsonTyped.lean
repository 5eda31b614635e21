import Effectus.Lib.JsonRead
import Effectus.Lib.JsonSchema

/-!
`json.Marshal` of values of known types, and back. What is written decodes to the value, but that an empty slice or map in a
field that is left out when empty comes back as nil.
-/

namespace Effectus

namespace JsonSchema

/-! ### Writing -/

/-- `isEmptyValue`. -/
def Value.isEmpty : Value → Bool
  | .string t => decide (t = [])
  | .bool b => !b
  | .uint n => decide (n = 0)
  | .slice items => items.isEmpty
  | .map entries => entries.isEmpty
  | .nilSlice | .nilMap => true
  | .struct _ => false

/-- Whether a field is left out. -/
def isOmitted (omitEmpty : List Text) (name : Text) (v : Value) : Bool := omitEmpty.contains name && v.isEmpty

mutual

/-- The document of a value of a type. -/
def encode (schema : Schema) : Value → Json
  | .string t => .str (.repair t)
  | .bool b => .bool b
  | .uint n => .num (.ofInt n)
  | .nilSlice => .null
  | .slice items => match schema with | .slice element => .arr (encodeItems element items) | _ => .null
  | .nilMap => .null
  | .map entries => match schema with | .map element => .obj (encodeEntries element entries) | _ => .null
  | .struct values =>
    match schema with
    | .struct fields omitEmpty | .own fields omitEmpty _ => .obj (encodeFields omitEmpty fields values)
    | _ => .null

def encodeItems (element : Schema) : List Value → List Json
  | [] => []
  | v :: items => encode element v :: encodeItems element items

/-- Entries come in the order of their names. -/
def encodeEntries (element : Schema) : List (Text × Value) → List (Utf8Text × Json)
  | [] => []
  | (name, v) :: entries => (.repair name, encode element v) :: encodeEntries element entries

/-- Fields come as declared. -/
def encodeFields (omitEmpty : List Text) (fields : List (Text × Schema)) : List (Text × Value) → List (Utf8Text × Json)
  | [] => []
  | (_, v) :: values =>
    match fields with
    | [] => []
    | (name, schema) :: rest =>
      if isOmitted omitEmpty name v then encodeFields omitEmpty rest values
      else (.repair name, encode schema v) :: encodeFields omitEmpty rest values

end

mutual

/-- A value as it is read back: a field that is left out has its zero value. -/
def settle (schema : Schema) : Value → Value
  | .slice items => match schema with | .slice element => .slice (settleItems element items) | _ => .slice items
  | .map entries => match schema with | .map element => .map (settleEntries element entries) | _ => .map entries
  | .struct values =>
    match schema with
    | .struct fields omitEmpty | .own fields omitEmpty _ => .struct (settleFields omitEmpty fields values)
    | _ => .struct values
  | .string t => .string t
  | .bool b => .bool b
  | .uint n => .uint n
  | .nilSlice => .nilSlice
  | .nilMap => .nilMap

def settleItems (element : Schema) : List Value → List Value
  | [] => []
  | v :: items => settle element v :: settleItems element items

def settleEntries (element : Schema) : List (Text × Value) → List (Text × Value)
  | [] => []
  | (name, v) :: entries => (name, settle element v) :: settleEntries element entries

def settleFields (omitEmpty : List Text) (fields : List (Text × Schema)) : List (Text × Value) → List (Text × Value)
  | [] => []
  | (name, v) :: values =>
    match fields with
    | [] => []
    | (field, schema) :: rest =>
      (name, if isOmitted omitEmpty field v then zero schema else settle schema v) :: settleFields omitEmpty rest values

end

mutual

/-- A value is of a type, and its texts are such as `P` says. One that decodes itself is accepted when it is read back. -/
def Fits (P : Text → Prop) (schema : Schema) : Value → Prop
  | .string t => match schema with | .string => P t | _ => False
  | .bool _ => match schema with | .bool => True | _ => False
  | .uint n => match schema with | .uint bits => n < 2 ^ bits | _ => False
  | .nilSlice => match schema with | .slice _ => True | _ => False
  | .slice items => match schema with | .slice element => FitsItems P element items | _ => False
  | .nilMap => match schema with | .map _ => True | _ => False
  | .map entries =>
    match schema with
    | .map element => Assoc.Ordered entries ∧ FitsEntries P element entries
    | _ => False
  | .struct values =>
    match schema with
    | .struct fields _ => FitsFields P fields values
    | .own fields omitEmpty isValid =>
      FitsFields P fields values ∧ isValid (.struct (settleFields omitEmpty fields values)) = true
    | _ => False

def FitsItems (P : Text → Prop) (element : Schema) : List Value → Prop
  | [] => True
  | v :: items => Fits P element v ∧ FitsItems P element items

def FitsEntries (P : Text → Prop) (element : Schema) : List (Text × Value) → Prop
  | [] => True
  | (name, v) :: entries => P name ∧ Fits P element v ∧ FitsEntries P element entries

def FitsFields (P : Text → Prop) (fields : List (Text × Schema)) : List (Text × Value) → Prop
  | [] => fields = []
  | (name, v) :: values =>
    match fields with
    | [] => False
    | (field, schema) :: rest => name = field ∧ Fits P schema v ∧ FitsFields P rest values

end

mutual

/-- The fields of each struct have different names, all of them UTF-8. -/
def Schema.Sound : Schema → Prop
  | .slice element => element.Sound
  | .map element => element.Sound
  | .struct fields _ | .own fields _ _ =>
    (fields.map Prod.fst).Nodup ∧ (∀ field ∈ fields, Text.validUTF8 field.1 = true) ∧ SoundFields fields
  | _ => True

def Schema.SoundFields : List (Text × Schema) → Prop
  | [] => True
  | (_, schema) :: fields => schema.Sound ∧ SoundFields fields

end

/-! ### Reading back -/

def IsUtf8 (t : Text) : Prop := Text.validUTF8 t = true

instance (t : Text) : Decidable (IsUtf8 t) := inferInstanceAs (Decidable (_ = true))

theorem repair_bytes {t : Text} (h : IsUtf8 t) : (Utf8Text.repair t).bytes = t := Text.repairUTF8_of_valid h

theorem parseUint_ofInt (n : Nat) : parseUint (JsonNumber.ofInt n).text = some n := by
  have htext : (JsonNumber.ofInt n).text = Text.decimal n := by
    have hneg : ¬(n : Int) < 0 := by omega
    simp only [JsonNumber.ofInt, decide_eq_true_eq, if_neg hneg, List.nil_append, Int.natAbs_natCast]
  obtain ⟨hvalue, hdigits, b, t, hhead, -⟩ := Text.decimal_spec n
  have hne : Text.decimal n ≠ [] := by
    rw [hhead]
    exact List.cons_ne_nil b t
  have hall : (Text.decimal n).all Text.isDigit = true := List.all_eq_true.2 hdigits
  rw [htext, parseUint, if_neg (by simp [hne, hall]), hvalue]

theorem fieldOf_of_mem {fields : List (Text × Schema)} (hnodup : (fields.map Prod.fst).Nodup) {field : Text × Schema}
    (h : field ∈ fields) : fieldOf fields field.1 = some field := by
  have hfind : (fields.find? fun other => other.1 == field.1) = some field := by
    induction fields with
    | nil => cases h
    | cons first rest ih =>
      obtain ⟨hfirst, hrest⟩ := List.nodup_cons.1 hnodup
      rcases List.mem_cons.1 h with rfl | h
      · exact List.find?_cons_of_pos (beq_self_eq_true _)
      · have hne : first.1 ≠ field.1 := fun he => hfirst (he ▸ List.mem_map_of_mem h)
        rw [List.find?_cons_of_neg (by simpa using hne), ih hrest h]
  rw [fieldOf, hfind, Option.some_or]

theorem assign_of_notMem {values : List (Text × Value)} {name : Text} {v : Value} (h : name ∉ values.map Prod.fst) :
    assign values name v = values := by
  unfold assign
  conv_rhs => rw [← List.map_id values]
  refine List.map_congr_left fun x hx => ?_
  have hne : x.1 ≠ name := fun he => h (he ▸ List.mem_map_of_mem hx)
  rw [if_neg hne]
  rfl

theorem assign_middle {done rest : List (Text × Value)} {name : Text} {old v : Value}
    (hdone : name ∉ done.map Prod.fst) (hrest : name ∉ rest.map Prod.fst) :
    assign (done ++ (name, old) :: rest) name v = done ++ (name, v) :: rest := by
  have happend : assign (done ++ (name, old) :: rest) name v = assign done name v ++ (name, v) :: assign rest name v := by
    simp [assign]
  rw [happend, assign_of_notMem hdone, assign_of_notMem hrest]

theorem get?_middle {done rest : List (Text × Value)} {name : Text} {v : Value} (h : name ∉ done.map Prod.fst) :
    Assoc.get? (done ++ (name, v) :: rest) name = some v := by
  induction done with
  | nil => exact if_pos rfl
  | cons x done ih =>
    rw [List.map_cons, List.mem_cons, not_or] at h
    rw [List.cons_append, Assoc.get?_cons, if_neg (Ne.symm h.1), ih h.2]

theorem zeroFields_keys (fields : List (Text × Schema)) : (zeroFields fields).map Prod.fst = fields.map Prod.fst := by
  induction fields with
  | nil => rfl
  | cons field fields ih => rw [zeroFields, List.map_cons, List.map_cons, ih]

theorem settleEntries_keys {element : Schema} (entries : List (Text × Value)) :
    (settleEntries element entries).map Prod.fst = entries.map Prod.fst := by
  induction entries with
  | nil => rfl
  | cons x entries ih => rw [settleEntries, List.map_cons, List.map_cons, ih]

mutual

/-- What is written is read back. -/
theorem decode_encode : ∀ (v : Value) {schema : Schema}, schema.Sound → Fits IsUtf8 schema v →
    decode schema (zero schema) (encode schema v) = some (settle schema v)
  | .string t, .string, _, h => congrArg (fun t => some (Value.string t)) (repair_bytes h)
  | .bool _, .bool, _, _ => rfl
  | .uint n, .uint bits, _, h => by
    have hlt : n < 2 ^ bits := h
    show ((parseUint (JsonNumber.ofInt n).text).filter fun k => decide (k < 2 ^ bits)).map Value.uint = _
    rw [parseUint_ofInt, Option.filter_some, if_pos (decide_eq_true hlt)]
    rfl
  | .nilSlice, .slice _, _, _ => rfl
  | .nilMap, .map _, _, _ => rfl
  | .slice items, .slice element, hsound, h =>
    congrArg (Option.map Value.slice) (decodeItems_encode element items hsound h)
  | .map entries, .map element, hsound, h =>
    congrArg (Option.map Value.map) (decodeEntries_encode element entries [] hsound h.2
      (h.1.of_keys (settleEntries_keys entries)))
  | .struct values, .struct fields omitEmpty, hsound, h =>
    congrArg (Option.map Value.struct)
      (decodeFields_encode omitEmpty values [] fields [] hsound.1 hsound.2.1 hsound.2.2 rfl h)
  | .struct values, .own fields omitEmpty isValid, hsound, h => by
    have hread : decodeFields fields (zeroFields fields) (encodeFields omitEmpty fields values) = _ :=
      decodeFields_encode omitEmpty values [] fields [] hsound.1 hsound.2.1 hsound.2.2 rfl h.1
    show ((decodeFields fields (zeroFields fields) (encodeFields omitEmpty fields values)).map Value.struct).filter isValid = _
    rw [hread, Option.map_some, Option.filter_some, List.nil_append, if_pos h.2]
    rfl

theorem decodeItems_encode (element : Schema) : ∀ items : List Value, element.Sound → FitsItems IsUtf8 element items →
    decodeItems element [] (encodeItems element items) = some (settleItems element items)
  | [], _, _ => rfl
  | v :: items, hsound, h => by
    rw [encodeItems, decodeItems]
    show (match decode element (zero element) (encode element v), decodeItems element [] (encodeItems element items) with
      | some v, some vs => some (v :: vs)
      | _, _ => none) = _
    rw [decode_encode v hsound h.1, decodeItems_encode element items hsound h.2]
    rfl

theorem decodeEntries_encode (element : Schema) : ∀ entries done : List (Text × Value),
    element.Sound → FitsEntries IsUtf8 element entries → Assoc.Ordered (done ++ settleEntries element entries) →
    decodeEntries element done (encodeEntries element entries) = some (done ++ settleEntries element entries)
  | [], done, _, _, _ => congrArg some (List.append_nil done).symm
  | (name, v) :: entries, done, hsound, h, hordered => by
    have hlast : ∀ x ∈ done, x.1 < name := fun x hx =>
      (List.pairwise_append.1 hordered).2.2 x hx _ (List.mem_cons_self ..)
    have hset : Assoc.set done name (settle element v) = done ++ [(name, settle element v)] := Assoc.set_of_lt hlast
    rw [encodeEntries, decodeEntries, decode_encode v hsound h.2.1]
    dsimp only
    rw [repair_bytes h.1, hset]
    have hnext : done ++ settleEntries element ((name, v) :: entries) =
        done ++ [(name, settle element v)] ++ settleEntries element entries := List.append_cons ..
    rw [hnext] at hordered ⊢
    exact decodeEntries_encode element entries _ hsound h.2.2 hordered

/-- The fields before are assigned, those after have their zero values. -/
theorem decodeFields_encode (omitEmpty : List Text) : ∀ (values : List (Text × Value)) (before fields : List (Text × Schema))
    (done : List (Text × Value)), ((before ++ fields).map Prod.fst).Nodup →
    (∀ field ∈ before ++ fields, Text.validUTF8 field.1 = true) → Schema.SoundFields fields →
    done.map Prod.fst = before.map Prod.fst → FitsFields IsUtf8 fields values →
    decodeFields (before ++ fields) (done ++ zeroFields fields) (encodeFields omitEmpty fields values) =
      some (done ++ settleFields omitEmpty fields values)
  | [], before, fields, done, _, _, _, _, h => by
    cases (show fields = [] from h)
    rfl
  | _ :: _, _, [], _, _, _, _, _, h => h.elim
  | (name, v) :: values, before, (field, schema) :: fields, done, hnodup, hutf8, hsound, hdone, h => by
    obtain ⟨rfl, hv, hvalues⟩ := h
    have hnext : ∀ w : Value, decodeFields (before ++ (name, schema) :: fields) (done ++ (name, w) :: zeroFields fields)
        (encodeFields omitEmpty fields values) = some (done ++ (name, w) :: settleFields omitEmpty fields values) := by
      intro w
      have hdone' : (done ++ [(name, w)]).map Prod.fst = (before ++ [(name, schema)]).map Prod.fst := by
        rw [List.map_append, List.map_append, hdone]
        rfl
      rw [List.append_cons before] at hnodup hutf8 ⊢
      have hread := decodeFields_encode omitEmpty values _ fields _ hnodup hutf8 hsound.2 hdone' hvalues
      rwa [← List.append_cons done, ← List.append_cons done] at hread
    have hmem : (name, schema) ∈ before ++ (name, schema) :: fields :=
      List.mem_append_right _ (List.mem_cons_self ..)
    have hkeys := List.nodup_append.1 (List.map_append ▸ hnodup)
    have hbefore : name ∉ done.map Prod.fst := by
      rw [hdone]
      exact fun hm => hkeys.2.2 name hm name (List.mem_cons_self ..) rfl
    have hafter : name ∉ (zeroFields fields).map Prod.fst := by
      rw [zeroFields_keys]
      exact (List.nodup_cons.1 hkeys.2.1).1
    rw [encodeFields, settleFields, zeroFields]
    split
    · exact hnext _
    · rw [decodeFields, repair_bytes (hutf8 _ hmem), fieldOf_of_mem hnodup hmem]
      dsimp only
      rw [get?_middle hbefore, Option.getD_some, decode_encode v hsound.1 hv]
      dsimp only
      rw [assign_middle hbefore hafter]
      exact hnext _

end

/-! ### What is read back is read back again -/

theorem isEmpty_settle {schema : Schema} (v : Value) : (settle schema v).isEmpty = v.isEmpty := by
  cases v with
  | string | bool | uint | nilSlice | nilMap => rfl
  | slice items =>
    cases schema with
    | slice element => cases items <;> rfl
    | string | bool | uint | map | struct | own => rfl
  | map entries =>
    cases schema with
    | map element => cases entries <;> rfl
    | string | bool | uint | slice | struct | own => rfl
  | struct values => cases schema <;> rfl

/-- An empty value can stand for the zero value of its type. -/
theorem zero_of_isEmpty {P : Text → Prop} {schema : Schema} {v : Value} (h : Fits P schema v) (hempty : v.isEmpty = true) :
    (zero schema).isEmpty = true ∧ Fits P schema (zero schema) := by
  cases v with
  | string t =>
    cases schema with
    | string =>
      rw [Value.isEmpty, decide_eq_true_eq] at hempty
      subst hempty
      exact ⟨rfl, h⟩
    | bool | uint | slice | map | struct | own => exact h.elim
  | bool b =>
    cases schema with
    | bool => exact ⟨rfl, trivial⟩
    | string | uint | slice | map | struct | own => exact h.elim
  | uint n =>
    cases schema with
    | uint bits => exact ⟨rfl, Nat.two_pow_pos bits⟩
    | string | bool | slice | map | struct | own => exact h.elim
  | nilSlice | slice =>
    cases schema with
    | slice element => exact ⟨rfl, trivial⟩
    | string | bool | uint | map | struct | own => exact h.elim
  | nilMap | map =>
    cases schema with
    | map element => exact ⟨rfl, trivial⟩
    | string | bool | uint | slice | struct | own => exact h.elim
  | struct values => cases hempty

theorem settle_zero {schema : Schema} (h : (zero schema).isEmpty = true) : settle schema (zero schema) = zero schema := by
  cases schema with
  | string | bool | uint | slice | map => rfl
  | struct | own => cases h

mutual

theorem settle_settle {P : Text → Prop} : ∀ (v : Value) {schema : Schema}, Fits P schema v →
    settle schema (settle schema v) = settle schema v
  | .string _, _, _ | .bool _, _, _ | .uint _, _, _ | .nilSlice, _, _ | .nilMap, _, _ => rfl
  | .slice items, .slice element, h => congrArg Value.slice (settleItems_settle element items h)
  | .map entries, .map element, h => congrArg Value.map (settleEntries_settle element entries h.2)
  | .struct values, .struct fields omitEmpty, h => congrArg Value.struct (settleFields_settle omitEmpty values fields h)
  | .struct values, .own fields omitEmpty _, h => congrArg Value.struct (settleFields_settle omitEmpty values fields h.1)

theorem settleItems_settle {P : Text → Prop} (element : Schema) : ∀ items : List Value, FitsItems P element items →
    settleItems element (settleItems element items) = settleItems element items
  | [], _ => rfl
  | v :: items, h => by
    simp only [settleItems]
    rw [settle_settle v h.1, settleItems_settle element items h.2]

theorem settleEntries_settle {P : Text → Prop} (element : Schema) : ∀ entries : List (Text × Value),
    FitsEntries P element entries → settleEntries element (settleEntries element entries) = settleEntries element entries
  | [], _ => rfl
  | (name, v) :: entries, h => by
    simp only [settleEntries]
    rw [settle_settle v h.2.1, settleEntries_settle element entries h.2.2]

theorem settleFields_settle {P : Text → Prop} (omitEmpty : List Text) : ∀ (values : List (Text × Value))
    (fields : List (Text × Schema)), FitsFields P fields values →
    settleFields omitEmpty fields (settleFields omitEmpty fields values) = settleFields omitEmpty fields values
  | [], _, _ => rfl
  | _ :: _, [], h => h.elim
  | (name, v) :: values, (field, schema) :: fields, h => by
    have hstable : (if isOmitted omitEmpty field (if isOmitted omitEmpty field v then zero schema else settle schema v) then
        zero schema else settle schema (if isOmitted omitEmpty field v then zero schema else settle schema v)) =
          if isOmitted omitEmpty field v then zero schema else settle schema v := by
      by_cases hv : isOmitted omitEmpty field v = true
      · have hzero := (zero_of_isEmpty h.2.1 (Bool.and_eq_true_iff.1 hv).2).1
        rw [if_pos hv, settle_zero hzero, ite_self]
      · have hsame : isOmitted omitEmpty field (settle schema v) = isOmitted omitEmpty field v := by
          rw [isOmitted, isEmpty_settle, ← isOmitted]
        rw [if_neg hv, hsame, if_neg hv, settle_settle v h.2.1]
    simp only [settleFields]
    rw [hstable, settleFields_settle omitEmpty values fields h.2.2]

end

mutual

theorem fits_settle {P : Text → Prop} : ∀ (v : Value) {schema : Schema}, Fits P schema v → Fits P schema (settle schema v)
  | .string _, _, h | .bool _, _, h | .uint _, _, h | .nilSlice, _, h | .nilMap, _, h => h
  | .slice items, .slice element, h => fitsItems_settle element items h
  | .map entries, .map element, h =>
    ⟨h.1.of_keys (settleEntries_keys entries), fitsEntries_settle element entries h.2⟩
  | .struct values, .struct fields omitEmpty, h => fitsFields_settle omitEmpty values fields h
  | .struct values, .own fields omitEmpty isValid, h => by
    refine ⟨fitsFields_settle omitEmpty values fields h.1, ?_⟩
    rw [settleFields_settle omitEmpty values fields h.1]
    exact h.2

theorem fitsItems_settle {P : Text → Prop} (element : Schema) : ∀ items : List Value, FitsItems P element items →
    FitsItems P element (settleItems element items)
  | [], _ => trivial
  | v :: items, h => ⟨fits_settle v h.1, fitsItems_settle element items h.2⟩

theorem fitsEntries_settle {P : Text → Prop} (element : Schema) : ∀ entries : List (Text × Value),
    FitsEntries P element entries → FitsEntries P element (settleEntries element entries)
  | [], _ => trivial
  | (_, v) :: entries, h => ⟨h.1, fits_settle v h.2.1, fitsEntries_settle element entries h.2.2⟩

theorem fitsFields_settle {P : Text → Prop} (omitEmpty : List Text) : ∀ (values : List (Text × Value))
    (fields : List (Text × Schema)), FitsFields P fields values → FitsFields P fields (settleFields omitEmpty fields values)
  | [], _, h => h
  | _ :: _, [], h => h.elim
  | (name, v) :: values, (field, schema) :: fields, h => by
    refine ⟨h.1, ?_, fitsFields_settle omitEmpty values fields h.2.2⟩
    split
    · rename_i hv
      exact (zero_of_isEmpty h.2.1 (Bool.and_eq_true_iff.1 hv).2).2
    · exact fits_settle v h.2.1

end

/-! ### The names and the depth of what is written -/

theorem repair_inj {a b : Text} (ha : IsUtf8 a) (hb : IsUtf8 b) (h : Utf8Text.repair a = Utf8Text.repair b) : a = b := by
  rw [← repair_bytes ha, ← repair_bytes hb, h]

/-- Every member is a field of its name. -/
theorem mem_encodeFields {omitEmpty : List Text} {name : Utf8Text} : ∀ {values : List (Text × Value)}
    {fields : List (Text × Schema)}, name ∈ (encodeFields omitEmpty fields values).map Prod.fst →
    ∃ field ∈ fields, name = .repair field.1
  | [], _, h => by cases h
  | _ :: _, [], h => by cases h
  | (_, v) :: values, (field, schema) :: fields, h => by
    rw [encodeFields] at h
    split at h
    · obtain ⟨other, hm, he⟩ := mem_encodeFields h
      exact ⟨other, List.mem_cons_of_mem _ hm, he⟩
    · rcases List.mem_cons.1 h with he | h
      · exact ⟨(field, schema), List.mem_cons_self .., he⟩
      · obtain ⟨other, hm, he⟩ := mem_encodeFields h
        exact ⟨other, List.mem_cons_of_mem _ hm, he⟩

theorem nodup_encodeFields (omitEmpty : List Text) : ∀ (values : List (Text × Value)) (fields : List (Text × Schema)),
    (fields.map Prod.fst).Nodup → (∀ field ∈ fields, Text.validUTF8 field.1 = true) →
    ((encodeFields omitEmpty fields values).map Prod.fst).Nodup
  | [], _, _, _ => List.nodup_nil
  | _ :: _, [], _, _ => List.nodup_nil
  | (_, v) :: values, (field, schema) :: fields, hnodup, hutf8 => by
    obtain ⟨hfirst, hrest⟩ := List.nodup_cons.1 hnodup
    have htail := nodup_encodeFields omitEmpty values fields hrest fun other hm =>
      hutf8 other (List.mem_cons_of_mem _ hm)
    rw [encodeFields]
    split
    · exact htail
    · refine List.nodup_cons.2 ⟨fun hm => ?_, htail⟩
      obtain ⟨other, hother, he⟩ := mem_encodeFields hm
      have hsame := repair_inj (hutf8 _ (List.mem_cons_self ..)) (hutf8 other (List.mem_cons_of_mem _ hother)) he
      exact hfirst (hsame ▸ List.mem_map_of_mem hother)

theorem encodeEntries_keys {element : Schema} (entries : List (Text × Value)) :
    (encodeEntries element entries).map Prod.fst = (entries.map Prod.fst).map Utf8Text.repair := by
  induction entries with
  | nil => rfl
  | cons x entries ih => simp only [encodeEntries, List.map_cons, ih]

theorem fitsEntries_names {P : Text → Prop} {element : Schema} : ∀ {entries : List (Text × Value)},
    FitsEntries P element entries → ∀ name ∈ entries.map Prod.fst, P name
  | [], _ => nofun
  | _ :: _, h => List.forall_mem_cons.2 ⟨h.1, fitsEntries_names h.2.2⟩

mutual

theorem namesOnce_encode : ∀ (v : Value) {schema : Schema}, schema.Sound → Fits IsUtf8 schema v →
    (encode schema v).namesOnce = true
  | .string _, _, _, _ | .bool _, _, _, _ | .uint _, _, _, _ | .nilSlice, _, _, _ | .nilMap, _, _, _ => rfl
  | .slice items, .slice element, hsound, h => Json.namesOnceItems_iff.2 (namesOnce_encodeItems element items hsound h)
  | .map entries, .map element, hsound, h => by
    refine Json.namesOnce_obj.2 ⟨?_, namesOnce_encodeEntries element entries hsound h.2⟩
    rw [encodeEntries_keys]
    have hutf8 := fitsEntries_names h.2
    exact (Assoc.Ordered.nodup_keys h.1).map_on fun a ha b hb => repair_inj (hutf8 a ha) (hutf8 b hb)
  | .struct values, .struct fields omitEmpty, hsound, h =>
    Json.namesOnce_obj.2 ⟨nodup_encodeFields omitEmpty values fields hsound.1 hsound.2.1,
      namesOnce_encodeFields omitEmpty values fields hsound.2.2 h⟩
  | .struct values, .own fields omitEmpty _, hsound, h =>
    Json.namesOnce_obj.2 ⟨nodup_encodeFields omitEmpty values fields hsound.1 hsound.2.1,
      namesOnce_encodeFields omitEmpty values fields hsound.2.2 h.1⟩

theorem namesOnce_encodeItems (element : Schema) : ∀ items : List Value, element.Sound → FitsItems IsUtf8 element items →
    ∀ item ∈ encodeItems element items, item.namesOnce = true
  | [], _, _ => nofun
  | v :: items, hsound, h =>
    List.forall_mem_cons.2 ⟨namesOnce_encode v hsound h.1, namesOnce_encodeItems element items hsound h.2⟩

theorem namesOnce_encodeEntries (element : Schema) : ∀ entries : List (Text × Value), element.Sound →
    FitsEntries IsUtf8 element entries → ∀ member ∈ encodeEntries element entries, member.2.namesOnce = true
  | [], _, _ => nofun
  | (_, v) :: entries, hsound, h =>
    List.forall_mem_cons.2 ⟨namesOnce_encode v hsound h.2.1, namesOnce_encodeEntries element entries hsound h.2.2⟩

theorem namesOnce_encodeFields (omitEmpty : List Text) : ∀ (values : List (Text × Value)) (fields : List (Text × Schema)),
    Schema.SoundFields fields → FitsFields IsUtf8 fields values →
    ∀ member ∈ encodeFields omitEmpty fields values, member.2.namesOnce = true
  | [], _, _, _ => nofun
  | _ :: _, [], _, h => h.elim
  | (_, v) :: values, (_, schema) :: fields, hsound, h => by
    have htail := namesOnce_encodeFields omitEmpty values fields hsound.2 h.2.2
    rw [encodeFields]
    split
    · exact htail
    · exact List.forall_mem_cons.2 ⟨namesOnce_encode v hsound.1 h.2.1, htail⟩

end

mutual

/-- How deep a document of a type can be nested. -/
def Schema.height : Schema → Nat
  | .slice element => element.height + 1
  | .map element => element.height + 1
  | .struct fields _ | .own fields _ _ => heightFields fields + 1
  | _ => 0

def Schema.heightFields : List (Text × Schema) → Nat
  | [] => 0
  | (_, schema) :: fields => max schema.height (heightFields fields)

end

mutual

theorem nested_encode {P : Text → Prop} : ∀ (v : Value) {schema : Schema} {depth : Nat}, Fits P schema v →
    depth + schema.height ≤ Json.maxNesting → (encode schema v).Nested depth
  | .string _, _, _, _, _ | .bool _, _, _, _, _ | .uint _, _, _, _, _ | .nilSlice, _, _, _, _ | .nilMap, _, _, _, _ => trivial
  | .slice items, .slice element, depth, h, hdepth => by
    rw [Schema.height] at hdepth
    exact ⟨by omega, nested_encodeItems element items h (by omega)⟩
  | .map entries, .map element, depth, h, hdepth => by
    rw [Schema.height] at hdepth
    exact ⟨by omega, nested_encodeEntries element entries h.2 (by omega)⟩
  | .struct values, .struct fields omitEmpty, depth, h, hdepth => by
    rw [Schema.height] at hdepth
    exact ⟨by omega, nested_encodeFields omitEmpty values fields h (by omega)⟩
  | .struct values, .own fields omitEmpty _, depth, h, hdepth => by
    rw [Schema.height] at hdepth
    exact ⟨by omega, nested_encodeFields omitEmpty values fields h.1 (by omega)⟩

theorem nested_encodeItems {P : Text → Prop} (element : Schema) : ∀ (items : List Value) {depth : Nat},
    FitsItems P element items → depth + element.height ≤ Json.maxNesting → Json.NestedItems depth (encodeItems element items)
  | [], _, _, _ => trivial
  | v :: items, _, h, hdepth => ⟨nested_encode v h.1 hdepth, nested_encodeItems element items h.2 hdepth⟩

theorem nested_encodeEntries {P : Text → Prop} (element : Schema) : ∀ (entries : List (Text × Value)) {depth : Nat},
    FitsEntries P element entries → depth + element.height ≤ Json.maxNesting →
    Json.NestedMembers depth (encodeEntries element entries)
  | [], _, _, _ => trivial
  | (_, v) :: entries, _, h, hdepth => ⟨nested_encode v h.2.1 hdepth, nested_encodeEntries element entries h.2.2 hdepth⟩

theorem nested_encodeFields {P : Text → Prop} (omitEmpty : List Text) : ∀ (values : List (Text × Value))
    (fields : List (Text × Schema)) {depth : Nat}, FitsFields P fields values →
    depth + Schema.heightFields fields ≤ Json.maxNesting → Json.NestedMembers depth (encodeFields omitEmpty fields values)
  | [], _, _, _, _ => trivial
  | _ :: _, [], _, h, _ => h.elim
  | (_, v) :: values, (_, schema) :: fields, depth, h, hdepth => by
    rw [Schema.heightFields] at hdepth
    have htail : Json.NestedMembers depth (encodeFields omitEmpty fields values) :=
      nested_encodeFields omitEmpty values fields h.2.2 (by omega)
    rw [encodeFields]
    split
    · exact htail
    · exact ⟨nested_encode v h.2.1 (by omega), htail⟩

end

/-! ### Texts -/

/-- `json.Marshal`. -/
def marshal (schema : Schema) (v : Value) : Text := (encode schema v).render

/-- A document on its own without repeated names, over the zero value. -/
def unmarshalStrict (schema : Schema) (t : Text) : Option Value :=
  match Json.readOnly t with
  | some x => if x.namesOnce then decode schema (zero schema) x else none
  | none => none

/-- `json.Unmarshal` over the zero value: fields it does not know are let pass. -/
def unmarshal (schema : Schema) (t : Text) : Option Value :=
  (Json.readOnly t).bind fun x => decode schema (zero schema) (known schema x)

theorem unmarshalStrict_marshal {schema : Schema} {v : Value} (hsound : schema.Sound) (h : Fits IsUtf8 schema v)
    (hheight : schema.height ≤ Json.maxNesting) : unmarshalStrict schema (marshal schema v) = some (settle schema v) := by
  rw [unmarshalStrict, marshal, Json.readOnly_render (nested_encode v h (by omega))]
  dsimp only
  rw [if_pos (namesOnce_encode v hsound h), decode_encode v hsound h]

theorem unmarshalStrict_some {schema : Schema} {t : Text} {v : Value} (h : unmarshalStrict schema t = some v) :
    ∃ x, Json.readOnly t = some x ∧ x.namesOnce = true ∧ decode schema (zero schema) x = some v := by
  unfold unmarshalStrict at h
  split at h
  · rename_i x hread
    split at h
    · exact ⟨x, hread, ‹_›, h⟩
    · cases h
  · cases h

/-- A document that is accepted assigns no field twice, whatever the order of its members, exactly if the names of its
members differ in more than case. -/
theorem unmarshalStrict_once_iff {schema : Schema} (hapart : schema.Apart) {t : Text} {v : Value}
    (h : unmarshalStrict schema t = some v) : ∃ x, Json.readOnly t = some x ∧
      (AssignsOnce schema x ↔ FoldsApart schema x) ∧
      (AssignsOnce schema x → ∀ u y, x.Reorders y → Json.readOnly u = some y → unmarshalStrict schema u = some v) := by
  obtain ⟨x, hread, hnames, hv⟩ := unmarshalStrict_some h
  refine ⟨x, hread, assignsOnce_iff x hapart ⟨_, v, hv⟩, fun honce u y hxy hu => ?_⟩
  obtain ⟨hsame, hnames⟩ := decode_reorders hxy hnames honce
  rw [unmarshalStrict, hu]
  dsimp only
  rw [if_pos hnames, ← hsame, hv]

end JsonSchema

end Effectus

import Effectus.IR.Environment

/-!
Values against closed types. A value that fits its type comes back as the program keeps it: integers as
`int64`, floats as finite `float64`, bytes as padded base64, lists as `[]any` and objects as
`map[string]any`.
-/

namespace Effectus

namespace GoValue

/-- `%T`. -/
def typeName : GoValue → Text
  | .nil => "<nil>"
  | .bool _ => "bool"
  | .str _ => "string"
  | .number _ => "json.Number"
  | .bytes _ => "[]uint8"
  | .int type _ | .uint type _ | .float32 type _ | .float64 type _ | .slice type _ | .map type _ | .namedBool type _
  | .namedStr type _ | .other type _ _ => type

/-- The items of a slice or array. -/
def items? : GoValue → Option (List GoValue)
  | .slice _ items => some items
  | .bytes b => some (b.map fun x => .uint "uint8" x.toUInt64)
  | _ => none

/-- The entries of a map whose keys are strings. -/
def entries? : GoValue → Option (List (Text × GoValue))
  | .map _ entries => some entries
  | _ => none

end GoValue

/-- `int64` holds the integer. -/
def isInt64 (n : Int) : Bool := decide (-2 ^ 63 ≤ n ∧ n < 2 ^ 63)

/-- `int64(f)` for a float that is an integer in range. -/
def Float64.toInt64? (f : Float64) : Option Int64 :=
  if f.isFinite = true ∧ f.toRat.den = 1 ∧ isInt64 f.toRat.num = true then some (Int64.ofInt f.toRat.num) else none

/-- `exactJSONNumber`. The texts that are JSON and that `big.Rat` reads are the number literals. -/
def exactJSONNumber (text : Text) : Option NumberParts :=
  if 1024 < text.length then none
  else
    match Text.numberParts? text with
    | none => none
    | some parts => if parts.exponent < -400 ∨ 400 < parts.exponent then none else some parts

/-- An integer of any representation. -/
def normalizeInt : GoValue → Option Int64
  | .number text =>
    match exactJSONNumber text with
    | none => none
    | some parts => if parts.value.den = 1 ∧ isInt64 parts.value.num = true then some (Int64.ofInt parts.value.num) else none
  | .int _ n => some n
  | .uint _ n => if n.toNat < 2 ^ 63 then some (Int64.ofInt n.toNat) else none
  | .float32 _ f | .float64 _ f => f.toInt64?
  | _ => none

/-- A finite float of any representation. -/
def normalizeFloat (value : GoValue) : Option Float64 :=
  match value with
  | .number text => ((exactJSONNumber text).map Float64.ofNumber).filter (·.isFinite)
  | .int _ n => some (Float64.ofInt n.toInt)
  | .uint _ n => some (Float64.ofInt n.toNat)
  | .float32 _ f | .float64 _ f => if f.isFinite then some f else none
  | _ => none

/-- Bytes, or the padded base64 of bytes. -/
def normalizeBytes : GoValue → Except Err (Option Text)
  | .bytes b => .ok (some (Base64.encode b))
  | .str s => if Base64.isCanonical s then .ok (some s) else .error (.new "bytes must be canonical padded base64")
  | _ => .ok none

/-- The items of a list, counting nodes from one to the next. -/
def normalizeItems (item : GoValue → Nat → Except Err (GoValue × Nat)) (index : Nat) :
    List GoValue → Nat → Except Err (List GoValue × Nat)
  | [], nodes => .ok ([], nodes)
  | value :: rest, nodes =>
    match item value nodes with
    | .error err => .error (err.under (("list item " : Text) ++ Text.ofInt index))
    | .ok (normalized, nodes) =>
      match normalizeItems item (index + 1) rest nodes with
      | .error err => .error err
      | .ok (normalizedRest, nodes) => .ok (normalized :: normalizedRest, nodes)

/-- The entries of a map in key order; `expected` is the type of the field, if the name has one. -/
def normalizeEntries (expected : Text → Option TypeRef) (item : TypeRef → GoValue → Nat → Except Err (GoValue × Nat)) :
    List (Text × GoValue) → Nat → Except Err (List (Text × GoValue) × Nat)
  | [], nodes => .ok ([], nodes)
  | (name, value) :: rest, nodes =>
    if Text.validUTF8 name = false then .error (.new "field name is not valid UTF-8")
    else
      match expected name with
      | none => .error (.new (("unknown field " : Text) ++ Text.quote name))
      | some ref =>
        match item ref value nodes with
        | .error err => .error (err.under (("field " : Text) ++ Text.quote name))
        | .ok (normalized, nodes) =>
          match normalizeEntries expected item rest nodes with
          | .error err => .error err
          | .ok (normalizedRest, nodes) => .ok ((name, normalized) :: normalizedRest, nodes)

def mismatch (ref : TypeRef) (value : GoValue) : Err :=
  .new (("got " : Text) ++ value.typeName ++ (", want " : Text) ++ ref.describe)

/-- A found value, or the mismatch. -/
def orMismatch (ref : TypeRef) (value : GoValue) (nodes : Nat) : Option GoValue → Except Err (GoValue × Nat)
  | some normalized => .ok (normalized, nodes)
  | none => .error (mismatch ref value)

namespace Environment

/-- `normalizeValue`, with `room` levels left, after `nodes` nodes. -/
def normalizeValue (env : Environment) : Nat → TypeRef → GoValue → Nat → Except Err (GoValue × Nat)
  | 0, _, _, _ => .error (.new "value depth or node limit exceeded")
  | room + 1, ref, value, before =>
    let nodes := before + 1
    if 10000 < nodes then .error (.new "value depth or node limit exceeded")
    else
      match env.resolve ref with
      | .error err => .error err
      | .ok .null => orMismatch ref value nodes (match value with | .nil => some .nil | _ => none)
      | .ok .bool => orMismatch ref value nodes (match value with | .bool b => some (.bool b) | _ => none)
      | .ok .string =>
        orMismatch ref value nodes (match value with | .str s => if Text.validUTF8 s then some (.str s) else none | _ => none)
      | .ok .bytes =>
        match normalizeBytes value with
        | .error err => .error err
        | .ok text => orMismatch ref value nodes (text.map .str)
      | .ok .int => orMismatch ref value nodes ((normalizeInt value).map .ofInt64)
      | .ok .float => orMismatch ref value nodes ((normalizeFloat value).map .ofFloat64)
      | .ok (.list _ element) =>
        match value.items? with
        | none => .error (mismatch ref value)
        | some items =>
          if 10000 < items.length then .error (.new "list item limit exceeded")
          else (normalizeItems (env.normalizeValue room element) 0 items nodes).map fun (items, nodes) =>
            (.ofList items, nodes)
      | .ok (.map _ element) =>
        match value.entries? with
        | none => .error (mismatch ref value)
        | some entries =>
          if 10000 < entries.length then .error (.new "object/map field limit exceeded")
          else (normalizeEntries (fun _ => some element) (env.normalizeValue room) entries nodes).map
            fun (entries, nodes) => (.ofMap entries, nodes)
      | .ok (.object name fields) =>
        match value.entries? with
        | none => .error (mismatch ref value)
        | some entries =>
          if 10000 < entries.length then .error (.new "object/map field limit exceeded")
          else
            match normalizeEntries (Assoc.get? fields) (env.normalizeValue room) entries nodes with
            | .error err => .error err
            | .ok (entries, nodes) =>
              match env.checkRequired name (entries.map Prod.fst) "missing required field " with
              | .error err => .error err
              | .ok () => .ok (.ofMap entries, nodes)
      | .ok .void | .ok (.named _) => .error (mismatch ref value)

end Environment

/-- `ir.NormalizeValue`. -/
def normalizeValue (environment : Environment) (typeName : Text) (value : GoValue) : Except Err GoValue :=
  match normalizeEnvironment environment with
  | .error err => .error (err.under "environment")
  | .ok env =>
    match env.parse typeName false with
    | .error err => .error err
    | .ok ref => (env.normalizeValue 65 ref value 0).map Prod.fst

end Effectus

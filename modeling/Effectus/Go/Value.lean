import Effectus.Go.Platform
import Effectus.Lib.Base64
import Effectus.Lib.Json

/-!
Go values of type `any`, as far as reflection in the program tells them apart, and `json.Marshal`
on them. A type is named as `%T` prints it.
-/

namespace Effectus

/-- A Go `any`. Integers and floats of every width carry their type's name, as do slices, arrays and
maps with string keys, whose entries come in key order; a nil slice or map is the empty one. `other` is
a value of any other kind, which may be a map with other keys, with the document `json.Marshal` makes of
it, if any. -/
inductive GoValue where
  | nil
  | bool (b : Bool)
  | str (s : Text)
  | number (text : Text)
  | bytes (b : List UInt8)
  | int (type : Text) (n : Int64)
  | uint (type : Text) (n : UInt64)
  | float32 (type : Text) (f : Float64)
  | float64 (type : Text) (f : Float64)
  | slice (type : Text) (items : List GoValue)
  | map (type : Text) (entries : List (Text × GoValue))
  | namedBool (type : Text) (b : Bool)
  | namedStr (type : Text) (s : Text)
  | other (type : Text) (isMap : Bool) (json : Option Json)

namespace GoValue

/-- The type `[]any`. -/
def anySlice : Text := "[]interface \x7b\x7d"

/-- The type `map[string]any`. -/
def anyMap : Text := "map[string]interface \x7b\x7d"

def int64Type : Text := "int64"

def float64Type : Text := "float64"

/-- An `int64`. -/
def ofInt64 (n : Int64) : GoValue := .int int64Type n

/-- A `float64`. -/
def ofFloat64 (f : Float64) : GoValue := .float64 float64Type f

/-- A `[]any`. -/
def ofList (items : List GoValue) : GoValue := .slice anySlice items

/-- A `map[string]any`. -/
def ofMap (entries : List (Text × GoValue)) : GoValue := .map anyMap entries

end GoValue

section

variable [Platform]

mutual

/-- `json.Marshal`, as a document. The keys of a map come in order, and invalid UTF-8 is replaced. -/
def GoValue.marshal : GoValue → Option Json
  | .nil => some .null
  | .bool b => some (.bool b)
  | .str s => some (.str (.repair s))
  | .number text =>
    if text.isEmpty then some (.num (.ofInt 0))
    else if h : (Text.numberParts? text).isSome then some (.num ⟨text, h⟩) else none
  | .bytes b => some (.str (.repair (Base64.encode b)))
  | .int _ n => some (.num (.ofInt n.toInt))
  | .uint _ n => some (.num (.ofInt n.toNat))
  | .float32 _ f => if f.isFinite then some (.num (Platform.formatFloat32 f)) else none
  | .float64 _ f => if f.isFinite then some (.num (Platform.formatFloat f)) else none
  | .slice _ items => (marshalItems items).map .arr
  | .map _ entries => (marshalEntries entries).map .obj
  | .namedBool _ b => some (.bool b)
  | .namedStr _ s => some (.str (.repair s))
  | .other _ _ json => json

def GoValue.marshalItems : List GoValue → Option (List Json)
  | [] => some []
  | v :: vs =>
    match marshal v, marshalItems vs with
    | some j, some js => some (j :: js)
    | _, _ => none

def GoValue.marshalEntries : List (Text × GoValue) → Option (List (Utf8Text × Json))
  | [] => some []
  | (k, v) :: es =>
    match marshal v, marshalEntries es with
    | some j, some js => some ((.repair k, j) :: js)
    | _, _ => none

end

end

mutual

/-- What `Decode` into an `any` builds, with `UseNumber`. -/
def GoValue.ofJson : Json → GoValue
  | .null => .nil
  | .bool b => .bool b
  | .num n => .number n.text
  | .str s => .str s.bytes
  | .arr items => .ofList (ofJsonItems items)
  | .obj members => .ofMap (ofJsonMembers members)

def GoValue.ofJsonItems : List Json → List GoValue
  | [] => []
  | j :: js => ofJson j :: ofJsonItems js

def GoValue.ofJsonMembers : List (Utf8Text × Json) → List (Text × GoValue)
  | [] => []
  | (k, j) :: ms => (k.bytes, ofJson j) :: ofJsonMembers ms

end

end Effectus

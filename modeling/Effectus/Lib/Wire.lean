import Effectus.Lib.Float64
import Effectus.Lib.Utf8

/-!
The protobuf encoding: varints of base 128, and fields as a tag with a varint, eight bytes or a counted text. A message
is the text of its fields in the order of their numbers; a string that is not UTF-8 has no encoding.
-/

namespace Effectus.Wire

/-- The low seven bits first, at most `fuel` groups of them. -/
def groups : Nat → Nat → Text
  | 0, _ => []
  | fuel + 1, n => if n < 128 then [UInt8.ofNat n] else UInt8.ofNat (n % 128 + 128) :: groups fuel (n / 128)

/-- A 64-bit number takes ten groups at most. -/
def varint (n : Nat) : Text := groups 10 n

def zigzag (n : Int) : Nat := if 0 ≤ n then 2 * n.toNat else 2 * (-n).toNat - 1

/-- An enumeration's number, a negative one in two's complement. -/
def enum (n : Int) : Nat := (n % 2 ^ 64).toNat

def tag (field type : Nat) : Text := varint (8 * field + type)

/-- A number that is there, zero or not. -/
def present (field n : Nat) : Text := tag field 0 ++ varint n

/-- A number, left out when it is zero. -/
def number (field n : Nat) : Text := if n = 0 then [] else present field n

def fixed64 (field : Nat) (f : Float64) : Text :=
  let bits := f.mag + if f.neg then 2 ^ 63 else 0
  tag field 1 ++ (List.range 8).map fun i => UInt8.ofNat (bits / 256 ^ i % 256)

/-- A counted text that is there, empty or not. -/
def delimited (field : Nat) (t : Text) : Text := tag field 2 ++ varint t.length ++ t

def string (field : Nat) (t : Text) : Option Text :=
  if Text.validUTF8 t then some (delimited field t) else none

/-- A string, left out when it is empty. -/
def optionalString (field : Nat) (t : Text) : Option Text := if t = [] then some [] else string field t

/-- Fields in order; one that has no encoding leaves the message without one. -/
def message (fields : List (Option Text)) : Option Text := (fields.mapM id).map List.flatten

def submessage (field : Nat) (body : Option Text) : Option Text := body.map (delimited field)

end Effectus.Wire

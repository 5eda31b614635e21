import Effectus.Lib.Text

/-!
Padded base64 over the standard alphabet. Decoding is strict: groups of four characters, padding only
at the end.
-/

namespace Effectus.Base64

/-- The character of a six-bit value. -/
def char (n : Nat) : UInt8 :=
  if n < 26 then UInt8.ofNat (0x41 + n)
  else if n < 52 then UInt8.ofNat (0x47 + n)
  else if n < 62 then UInt8.ofNat (n - 4)
  else if n = 62 then 0x2B
  else 0x2F

/-- The six-bit value of a character of the alphabet. -/
def sextet (b : UInt8) : Option Nat :=
  if 0x41 ≤ b && b ≤ 0x5A then some (b - 0x41).toNat
  else if 0x61 ≤ b && b ≤ 0x7A then some (b - 0x47).toNat
  else if 0x30 ≤ b && b ≤ 0x39 then some (b + 4).toNat
  else if b == 0x2B then some 62
  else if b == 0x2F then some 63
  else none

/-- `base64.StdEncoding.EncodeToString`. -/
def encode : List UInt8 → Text
  | [] => []
  | [a] => [char (a.toNat / 4), char (a.toNat % 4 * 16), 0x3D, 0x3D]
  | [a, b] =>
    [char (a.toNat / 4), char (a.toNat % 4 * 16 + b.toNat / 16), char (b.toNat % 16 * 4), 0x3D]
  | a :: b :: c :: rest =>
    char (a.toNat / 4) :: char (a.toNat % 4 * 16 + b.toNat / 16) ::
      char (b.toNat % 16 * 4 + c.toNat / 64) :: char (c.toNat % 64) :: encode rest

/-- The bytes of a padded text; bits past the last byte are dropped. -/
def decode : Text → Option (List UInt8)
  | [] => some []
  | [w, x, 0x3D, 0x3D] => do
    let w ← sextet w
    let x ← sextet x
    return [UInt8.ofNat (w * 4 + x / 16)]
  | [w, x, y, 0x3D] => do
    let w ← sextet w
    let x ← sextet x
    let y ← sextet y
    return [UInt8.ofNat (w * 4 + x / 16), UInt8.ofNat (x % 16 * 16 + y / 4)]
  | w :: x :: y :: z :: rest => do
    let w ← sextet w
    let x ← sextet x
    let y ← sextet y
    let z ← sextet z
    let bytes ← decode rest
    return UInt8.ofNat (w * 4 + x / 16) :: UInt8.ofNat (x % 16 * 16 + y / 4) ::
      UInt8.ofNat (y % 4 * 64 + z) :: bytes
  | _ => none

/-- A text that decodes and is the encoding of what it decodes to. -/
def isCanonical (t : Text) : Bool :=
  match decode t with
  | some bytes => encode bytes == t
  | none => false

example : encode [0x66, 0x6F] = ("Zm8=" : Text) := by decide

end Effectus.Base64

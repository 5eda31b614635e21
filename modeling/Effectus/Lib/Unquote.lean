import Effectus.Lib.JsonNumber
import Effectus.Lib.Utf8

/-!
Go's quoted literals, and what `strconv.Unquote` takes them to mean. Text without escapes, between double quotes or one
character between single ones, means itself; a raw line feed is never part of a literal.
-/

namespace Effectus

namespace Text

/-- The value of a digit in some base up to sixteen. -/
def digitValue? (base : Nat) (b : UInt8) : Option Nat :=
  let value :=
    if isDigit b then (b - 0x30).toNat
    else if 0x61 ≤ b && b ≤ 0x66 then (b - 0x57).toNat
    else if 0x41 ≤ b && b ≤ 0x46 then (b - 0x37).toNat
    else base
  if value < base then some value else none

/-- So many digits at the front, and what they spell. -/
def takeDigits (base : Nat) : Nat → Nat → Text → Option (Nat × Text)
  | 0, acc, t => some (acc, t)
  | _ + 1, _, [] => none
  | count + 1, acc, b :: t =>
    match digitValue? base b with
    | none => none
    | some value => takeDigits base count (base * acc + value) t

/-- The UTF-8 encoding of a number that is a Unicode scalar value. -/
def encodeRune? (n : Nat) : Option Text := if n.isValidChar then some (String.utf8EncodeChar (Char.ofNat n)) else none

/-- What follows a backslash: `strconv.UnquoteChar`'s escapes. -/
def unescape (quote : UInt8) : Text → Option (Text × Text)
  | [] => none
  | c :: t =>
    if c = 0x61 then some ([0x07], t)
    else if c = 0x62 then some ([0x08], t)
    else if c = 0x66 then some ([0x0C], t)
    else if c = 0x6E then some ([0x0A], t)
    else if c = 0x72 then some ([0x0D], t)
    else if c = 0x74 then some ([0x09], t)
    else if c = 0x76 then some ([0x0B], t)
    else if c = 0x78 then (takeDigits 16 2 0 t).map fun x => ([UInt8.ofNat x.1], x.2)
    else if c = 0x75 then (takeDigits 16 4 0 t).bind fun x => (encodeRune? x.1).map fun rune => (rune, x.2)
    else if c = 0x55 then (takeDigits 16 8 0 t).bind fun x => (encodeRune? x.1).map fun rune => (rune, x.2)
    else if (digitValue? 8 c).isSome then
      (takeDigits 8 3 0 (c :: t)).bind fun x => if 255 < x.1 then none else some ([UInt8.ofNat x.1], x.2)
    else if c = 0x5C then some ([c], t)
    else if c = 0x27 ∨ c = 0x22 then if c = quote then some ([c], t) else none
    else none

/-- One character of a literal. A byte that is not UTF-8 is read as U+FFFD. -/
def unquoteChar (quote : UInt8) : Text → Option (Text × Text)
  | [] => none
  | c :: t =>
    if c = quote ∨ c = 0x0A then none
    else if c = 0x5C then unescape quote t
    else
      match runeLen (c :: t) with
      | 0 => some (replacement, t)
      | width + 1 => some ((c :: t).take (width + 1), (c :: t).drop (width + 1))

/-- Characters up to the closing quote, at most `fuel` of them, and nothing after it. -/
def unquoteRun (quote : UInt8) : Nat → Text → Option Text
  | 0, _ => none
  | fuel + 1, t =>
    if t = [quote] then some []
    else
      match unquoteChar quote t with
      | none => none
      | some (char, rest) => (unquoteRun quote fuel rest).map (char ++ ·)

/-- `strconv.Unquote`. Between single quotes stands at most one character. Between back quotes carriage returns are left
out. Its shorter way for a literal without escapes has the same result. -/
def unquote : Text → Option Text
  | [] => none
  | quote :: t =>
    if quote = 0x60 then
      if t.getLast? = some quote ∧ quote ∉ t.dropLast then some (t.dropLast.filter fun b => b ≠ 0x0D) else none
    else if quote = 0x22 then unquoteRun quote t.length t
    else if quote = 0x27 then
      if t = [quote] then some []
      else
        match unquoteChar quote t with
        | none => none
        | some (char, rest) => if rest = [quote] then some char else none
    else none

end Text

end Effectus

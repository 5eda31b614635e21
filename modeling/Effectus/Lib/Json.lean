import Effectus.Lib.Assoc
import Effectus.Lib.JsonNumber
import Effectus.Lib.Utf8

/-!
JSON documents and their text, as Go's `encoding/json` writes and reads it: compact, with the
characters special to HTML escaped, and with number literals kept by their spelling.
-/

namespace Effectus

/-- A JSON document. Strings are valid UTF-8 and numbers are literals, so every value has a text. -/
inductive Json where
  | null
  | bool (b : Bool)
  | num (n : JsonNumber)
  | str (s : Utf8Text)
  | arr (items : List Json)
  | obj (members : List (Utf8Text × Json))

namespace Json

/-! ### Writing -/

/-- One byte inside a string literal. -/
def escapeByte (b : UInt8) : Text :=
  if b == 0x22 then [0x5C, 0x22]
  else if b == 0x5C then [0x5C, 0x5C]
  else if b == 0x08 then [0x5C, 0x62]
  else if b == 0x0C then [0x5C, 0x66]
  else if b == 0x0A then [0x5C, 0x6E]
  else if b == 0x0D then [0x5C, 0x72]
  else if b == 0x09 then [0x5C, 0x74]
  else if b < 0x20 || b == 0x3C || b == 0x3E || b == 0x26 then
    [0x5C, 0x75, 0x30, 0x30, Text.hexDigit (b.toNat / 16), Text.hexDigit (b.toNat % 16)]
  else [b]

/-- The body of a string literal. U+2028 and U+2029 are escaped as JSONP needs. -/
def escape : Text → Text
  | 0xE2 :: 0x80 :: 0xA8 :: t => [0x5C, 0x75, 0x32, 0x30, 0x32, 0x38] ++ escape t
  | 0xE2 :: 0x80 :: 0xA9 :: t => [0x5C, 0x75, 0x32, 0x30, 0x32, 0x39] ++ escape t
  | b :: t => escapeByte b ++ escape t
  | [] => []

def renderString (s : Utf8Text) : Text := 0x22 :: (escape s.bytes ++ [0x22])

mutual

/-- The text `json.Marshal` writes. -/
def render : Json → Text
  | .null => [0x6E, 0x75, 0x6C, 0x6C]
  | .bool true => [0x74, 0x72, 0x75, 0x65]
  | .bool false => [0x66, 0x61, 0x6C, 0x73, 0x65]
  | .num n => n.text
  | .str s => renderString s
  | .arr [] => [0x5B, 0x5D]
  | .arr (x :: xs) => 0x5B :: (render x ++ renderItems xs)
  | .obj [] => [0x7B, 0x7D]
  | .obj ((k, x) :: ms) => 0x7B :: (renderString k ++ 0x3A :: (render x ++ renderMembers ms))

/-- The later items of an array, up to its closing bracket. -/
def renderItems : List Json → Text
  | [] => [0x5D]
  | x :: xs => 0x2C :: (render x ++ renderItems xs)

/-- The later members of an object, up to its closing brace. -/
def renderMembers : List (Utf8Text × Json) → Text
  | [] => [0x7D]
  | (k, x) :: ms => 0x2C :: (renderString k ++ 0x3A :: (render x ++ renderMembers ms))

end

theorem render_ne_nil : ∀ j : Json, j.render ≠ []
  | .null | .bool true | .bool false | .str _ | .arr [] | .arr (_ :: _) | .obj [] | .obj (_ :: _) => by
    simp [render, renderString]
  | .num n => fun h => by
    have hvalid := n.valid
    rw [show n.text = [] from h] at hvalid
    cases hvalid

/-! ### Reading -/

def isSpace (b : UInt8) : Bool := b == 0x20 || b == 0x09 || b == 0x0A || b == 0x0D

def skipSpace (t : Text) : Text := t.dropWhile isSpace

def hexValue (b : UInt8) : Option Nat :=
  if 0x30 ≤ b && b ≤ 0x39 then some (b - 0x30).toNat
  else if 0x61 ≤ b && b ≤ 0x66 then some (b - 0x57).toNat
  else if 0x41 ≤ b && b ≤ 0x46 then some (b - 0x37).toNat
  else none

def hex4 (a b c d : UInt8) : Option Nat := do
  let a ← hexValue a
  let b ← hexValue b
  let c ← hexValue c
  let d ← hexValue d
  return ((a * 16 + b) * 16 + c) * 16 + d

/-- The UTF-8 encoding of a rune. -/
def encodeRune (r : Nat) : Text :=
  if r < 0x80 then [UInt8.ofNat r]
  else if r < 0x800 then [UInt8.ofNat (0xC0 + r / 0x40), UInt8.ofNat (0x80 + r % 0x40)]
  else if r < 0x10000 then
    [UInt8.ofNat (0xE0 + r / 0x1000), UInt8.ofNat (0x80 + r / 0x40 % 0x40),
      UInt8.ofNat (0x80 + r % 0x40)]
  else
    [UInt8.ofNat (0xF0 + r / 0x40000), UInt8.ofNat (0x80 + r / 0x1000 % 0x40),
      UInt8.ofNat (0x80 + r / 0x40 % 0x40), UInt8.ofNat (0x80 + r % 0x40)]

/-- The byte a one-letter escape stands for. -/
def unescapeByte (b : UInt8) : Option UInt8 :=
  if b == 0x22 || b == 0x5C || b == 0x2F then some b
  else if b == 0x62 then some 0x08
  else if b == 0x66 then some 0x0C
  else if b == 0x6E then some 0x0A
  else if b == 0x72 then some 0x0D
  else if b == 0x74 then some 0x09
  else none

def isHigh (r : Nat) : Bool := 0xD800 ≤ r && r < 0xDC00

def isLow (r : Nat) : Bool := 0xDC00 ≤ r && r < 0xE000

/-- A string literal's bytes up to its closing quote. A surrogate without its pair is U+FFFD. -/
def scanString : Text → Option (Text × Text)
  | [] => none
  | 0x22 :: t => some ([], t)
  | 0x5C :: 0x75 :: a :: b :: c :: d :: t =>
    match hex4 a b c d with
    | none => none
    | some r =>
      if isHigh r || isLow r then
        match t with
        | 0x5C :: 0x75 :: a' :: b' :: c' :: d' :: t' =>
          match hex4 a' b' c' d' with
          | none => none
          | some r' =>
            if isHigh r && isLow r' then
              (scanString t').map fun (s, rest) =>
                (encodeRune (0x10000 + (r - 0xD800) * 0x400 + (r' - 0xDC00)) ++ s, rest)
            else (scanString (0x5C :: 0x75 :: a' :: b' :: c' :: d' :: t')).map fun (s, rest) =>
              (Text.replacement ++ s, rest)
        | t => (scanString t).map fun (s, rest) => (Text.replacement ++ s, rest)
      else (scanString t).map fun (s, rest) => (encodeRune r ++ s, rest)
  | 0x5C :: e :: t =>
    match unescapeByte e with
    | none => none
    | some b => (scanString t).map fun (s, rest) => (b :: s, rest)
  | b :: t => if b < 0x20 then none else (scanString t).map fun (s, rest) => (b :: s, rest)

/-- `scanString`, with bytes that are not UTF-8 replaced. -/
def decodeString (t : Text) : Option (Utf8Text × Text) :=
  (scanString t).map fun (s, rest) => (Utf8Text.repair s, rest)

/-- A number literal at the front. -/
def decodeNumber (t : Text) : Option (Json × Text) :=
  match Text.scanNumber t with
  | none => none
  | some (_, rest) =>
    let literal := t.take (t.length - rest.length)
    if h : (Text.numberParts? literal).isSome then some (.num ⟨literal, h⟩, rest) else none

/-- The decoder's limit on open arrays and objects. -/
def maxNesting : Nat := 10000

mutual

/-- One value, under `depth` open arrays and objects. The members of an object are kept as they are written: in their order,
and also where two have one name. -/
def readValue : Nat → Nat → Text → Option (Json × Text)
  | 0, _, _ => none
  | fuel + 1, depth, t =>
    match skipSpace t with
    | 0x6E :: 0x75 :: 0x6C :: 0x6C :: t => some (.null, t)
    | 0x74 :: 0x72 :: 0x75 :: 0x65 :: t => some (.bool true, t)
    | 0x66 :: 0x61 :: 0x6C :: 0x73 :: 0x65 :: t => some (.bool false, t)
    | 0x22 :: t => (decodeString t).map fun (s, rest) => (.str s, rest)
    | 0x5B :: t =>
      if depth < maxNesting then
        match skipSpace t with
        | 0x5D :: t => some (.arr [], t)
        | t => (readItems fuel (depth + 1) t).map fun (items, rest) => (.arr items, rest)
      else none
    | 0x7B :: t =>
      if depth < maxNesting then
        match skipSpace t with
        | 0x7D :: t => some (.obj [], t)
        | t => (readMembers fuel (depth + 1) t).map fun (ms, rest) => (.obj ms, rest)
      else none
    | t => decodeNumber t

/-- The items of an array that is not empty, and its closing bracket. -/
def readItems : Nat → Nat → Text → Option (List Json × Text)
  | 0, _, _ => none
  | fuel + 1, depth, t =>
    match readValue fuel depth t with
    | none => none
    | some (x, t) =>
      match skipSpace t with
      | 0x5D :: t => some ([x], t)
      | 0x2C :: t => (readItems fuel depth t).map fun (xs, rest) => (x :: xs, rest)
      | _ => none

/-- The members of an object that is not empty, and its closing brace. -/
def readMembers : Nat → Nat → Text → Option (List (Utf8Text × Json) × Text)
  | 0, _, _ => none
  | fuel + 1, depth, t =>
    match skipSpace t with
    | 0x22 :: t =>
      match decodeString t with
      | none => none
      | some (k, t) =>
        match skipSpace t with
        | 0x3A :: t =>
          match readValue fuel depth t with
          | none => none
          | some (x, t) =>
            match skipSpace t with
            | 0x7D :: t => some ([(k, x)], t)
            | 0x2C :: t => (readMembers fuel depth t).map fun (ms, rest) => ((k, x) :: ms, rest)
            | _ => none
        | _ => none
    | _ => none

end

/-- A text that is one value and white space. -/
def readOnly (t : Text) : Option Json :=
  match readValue (2 * t.length + 2) 0 t with
  | some (x, rest) => if skipSpace rest = [] then some x else none
  | none => none

mutual

/-- A document as a Go map collects it: each object by its names, the last member of a name in place of those before. -/
def normal : Json → Json
  | .null => .null
  | .bool b => .bool b
  | .num n => .num n
  | .str s => .str s
  | .arr items => .arr (normalItems items)
  | .obj members => .obj (normalMembers [] members)

def normalItems : List Json → List Json
  | [] => []
  | x :: xs => normal x :: normalItems xs

def normalMembers (before : List (Utf8Text × Json)) : List (Utf8Text × Json) → List (Utf8Text × Json)
  | [] => before
  | (k, x) :: ms => normalMembers (Assoc.set before k (normal x)) ms

end

/-- The first value of a text, as `Decoder.Decode` reads it, and what follows. -/
def decodeFirst (t : Text) : Option (Json × Text) := (readValue (2 * t.length + 2) 0 t).map fun (x, rest) => (x.normal, rest)

/-- The first value of a text; what follows is not looked at. -/
def decode (t : Text) : Option Json := (decodeFirst t).map Prod.fst

end Json

end Effectus

import Effectus.Lib.Text

/-!
SHA-256. Words are numbers below 2^32; a message is padded to whole blocks of 64 bytes, and each block
is folded into the state by 64 rounds.
-/

namespace Effectus.Sha256

/-- The eight words of a state. -/
structure State where
  a : Nat
  b : Nat
  c : Nat
  d : Nat
  e : Nat
  f : Nat
  g : Nat
  h : Nat

def add (x y : Nat) : Nat := (x + y) % 4294967296

def rotr (n x : Nat) : Nat := x >>> n ||| x <<< (32 - n) % 4294967296

def initial : State :=
  ⟨0x6a09e667, 0xbb67ae85, 0x3c6ef372, 0xa54ff53a, 0x510e527f, 0x9b05688c, 0x1f83d9ab, 0x5be0cd19⟩

def constants : List Nat := [
  0x428a2f98, 0x71374491, 0xb5c0fbcf, 0xe9b5dba5, 0x3956c25b, 0x59f111f1, 0x923f82a4, 0xab1c5ed5,
  0xd807aa98, 0x12835b01, 0x243185be, 0x550c7dc3, 0x72be5d74, 0x80deb1fe, 0x9bdc06a7, 0xc19bf174,
  0xe49b69c1, 0xefbe4786, 0x0fc19dc6, 0x240ca1cc, 0x2de92c6f, 0x4a7484aa, 0x5cb0a9dc, 0x76f988da,
  0x983e5152, 0xa831c66d, 0xb00327c8, 0xbf597fc7, 0xc6e00bf3, 0xd5a79147, 0x06ca6351, 0x14292967,
  0x27b70a85, 0x2e1b2138, 0x4d2c6dfc, 0x53380d13, 0x650a7354, 0x766a0abb, 0x81c2c92e, 0x92722c85,
  0xa2bfe8a1, 0xa81a664b, 0xc24b8b70, 0xc76c51a3, 0xd192e819, 0xd6990624, 0xf40e3585, 0x106aa070,
  0x19a4c116, 0x1e376c08, 0x2748774c, 0x34b0bcb5, 0x391c0cb3, 0x4ed8aa4a, 0x5b9cca4f, 0x682e6ff3,
  0x748f82ee, 0x78a5636f, 0x84c87814, 0x8cc70208, 0x90befffa, 0xa4506ceb, 0xbef9a3f7, 0xc67178f2]

/-- Big-endian words of four bytes; what does not fill one is dropped. -/
def wordsOf : Text → List Nat
  | p :: q :: r :: t :: rest => (((p.toNat * 256 + q.toNat) * 256 + r.toNat) * 256 + t.toNat) :: wordsOf rest
  | _ => []

/-- A word's four bytes. -/
def bytesOf (x : Nat) : Text :=
  [UInt8.ofNat (x / 16777216), UInt8.ofNat (x / 65536), UInt8.ofNat (x / 256), UInt8.ofNat x]

def bigSigma0 (x : Nat) : Nat := rotr 2 x ^^^ rotr 13 x ^^^ rotr 22 x

def bigSigma1 (x : Nat) : Nat := rotr 6 x ^^^ rotr 11 x ^^^ rotr 25 x

def smallSigma0 (x : Nat) : Nat := rotr 7 x ^^^ rotr 18 x ^^^ x >>> 3

def smallSigma1 (x : Nat) : Nat := rotr 17 x ^^^ rotr 19 x ^^^ x >>> 10

/-- The next words of the schedule, from the last sixteen. -/
def extend : Nat → List Nat → List Nat
  | 0, _ => []
  | n + 1, window =>
    let next := add (add (smallSigma1 (window.getD 14 0)) (window.getD 9 0))
      (add (smallSigma0 (window.getD 1 0)) (window.getD 0 0))
    next :: extend n (window.tail ++ [next])

def round (s : State) (kw : Nat × Nat) : State :=
  let choose := (s.e &&& s.f) ^^^ ((4294967295 - s.e) &&& s.g)
  let t1 := add (add s.h (bigSigma1 s.e)) (add choose (add kw.1 kw.2))
  let t2 := add (bigSigma0 s.a) ((s.a &&& s.b) ^^^ (s.a &&& s.c) ^^^ (s.b &&& s.c))
  ⟨add t1 t2, s.a, s.b, s.c, add s.d t1, s.e, s.f, s.g⟩

/-- Fold one block into the state. -/
def compress (s : State) (block : List Nat) : State :=
  let t := (constants.zip (block ++ extend 48 block)).foldl round s
  ⟨add s.a t.a, add s.b t.b, add s.c t.c, add s.d t.d, add s.e t.e, add s.f t.f, add s.g t.g, add s.h t.h⟩

/-- A one bit, zeros up to eight bytes short of a whole block, and the length in bits. -/
def pad (t : Text) : Text :=
  t ++ 0x80 :: List.replicate ((119 - t.length % 64) % 64) 0 ++ bytesOf (t.length * 8 / 4294967296) ++
    bytesOf (t.length * 8)

/-- Fold the blocks of sixteen words, at most `fuel` of them. -/
def blocks : Nat → State → List Nat → State
  | 0, s, _ => s
  | fuel + 1, s, words =>
    match words with
    | [] => s
    | _ :: _ => blocks fuel (compress s (words.take 16)) (words.drop 16)

def sum256 (t : Text) : Text :=
  let words := wordsOf (pad t)
  let s := blocks words.length initial words
  [s.a, s.b, s.c, s.d, s.e, s.f, s.g, s.h].flatMap bytesOf

theorem length_sum256 (t : Text) : (sum256 t).length = 32 := rfl

example : sum256 ("abc" : Text) = [
    0xba, 0x78, 0x16, 0xbf, 0x8f, 0x01, 0xcf, 0xea, 0x41, 0x41, 0x40, 0xde, 0x5d, 0xae, 0x22, 0x23,
    0xb0, 0x03, 0x61, 0xa3, 0x96, 0x17, 0x7a, 0x9c, 0xb4, 0x10, 0xff, 0x61, 0xf2, 0x00, 0x15, 0xad] := by
  decide +kernel

end Effectus.Sha256

import Effectus.Lib.Text

/-!
Tar files of plain entries: a header block with the numbers in octal and the sum of its bytes, the content filled up to whole
blocks, and two empty blocks at the end.
-/

namespace Effectus

namespace Tar

def blockSize : Nat := 512

/-- A field, filled with zero bytes. -/
def fill (width : Nat) (t : Text) : Text := t ++ List.replicate (width - t.length) 0

/-- The last `width` octal digits of a number. -/
def octal : Nat → Nat → Text
  | 0, _ => []
  | width + 1, n => octal width (n / 8) ++ [UInt8.ofNat (0x30 + n % 8)]

def number (width n : Nat) : Text := octal (width - 1) n ++ [0]

def checksum (block : Text) : Nat := block.foldl (fun sum b => sum + b.toNat) 0

/-- The header of a regular file that anyone may read, with its sum of bytes as given. -/
def headerWith (sum name : Text) (size : Nat) : Text :=
  fill 100 name ++ number 8 0o644 ++ number 8 0 ++ number 8 0 ++ number 12 size ++ number 12 0 ++ sum ++ ("0" : Text) ++
    fill 100 [] ++ fill 6 ("ustar" : Text) ++ ("00" : Text) ++ fill 32 [] ++ fill 32 [] ++ number 8 0 ++ number 8 0 ++
    fill 155 [] ++ fill 12 []

/-- The sum is taken with spaces in its place. -/
def header (name : Text) (size : Nat) : Text :=
  let blank := headerWith (List.replicate 8 0x20) name size
  headerWith (number 7 (checksum blank) ++ [0x20]) name size

def padding (size : Nat) : Nat := (blockSize - size % blockSize) % blockSize

def pack (name data : Text) : Text :=
  header name data.length ++ data ++ List.replicate (padding data.length) 0 ++ List.replicate (2 * blockSize) 0

structure Entry where
  name : Text
  isRegular : Bool
  size : Nat
  content : Text

def octalValue (t : Text) : Nat := t.foldl (fun acc b => acc * 8 + (b.toNat - 0x30)) 0

def slice (block : Text) (start width : Nat) : Text := (block.drop start).take width

/-- The name, kind and size of an entry, unless the block is no header. -/
def readHeader (block : Text) : Option (Text × Bool × Nat) :=
  let blank := block.take 148 ++ List.replicate 8 0x20 ++ block.drop 156
  if block.length = blockSize ∧ octalValue (slice block 148 6) = checksum blank then
    some ((block.take 100).takeWhile (· ≠ 0), decide (slice block 156 1 = ("0" : Text)), octalValue (slice block 124 11))
  else none

/-- The entries of a file, and whether it ended as it should. -/
def unpack : Nat → Text → List Entry × Bool
  | 0, _ => ([], true)
  | fuel + 1, t =>
    if t = [] then ([], true)
    else if (t.take blockSize).all (· = 0) then ([], (t.take (2 * blockSize)).all (· = 0))
    else
      match readHeader (t.take blockSize) with
      | none => ([], false)
      | some (name, isRegular, size) =>
        let rest := t.drop blockSize
        let (entries, ended) := unpack fuel (rest.drop (size + padding size))
        (⟨name, isRegular, size, rest.take size⟩ :: entries, ended)

example : (unpack 3 (pack ("a" : Text) ("xyz" : Text))).1.map (fun entry => (entry.name, entry.content)) =
    [(("a" : Text), ("xyz" : Text))] := by decide +kernel

end Tar

end Effectus

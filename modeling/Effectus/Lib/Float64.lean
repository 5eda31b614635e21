import Mathlib.Algebra.Order.Floor.Semifield
import Mathlib.Data.Rat.Floor
import Mathlib.Tactic.Linarith
import Mathlib.Tactic.NormNum
import Mathlib.Tactic.Ring

/-!
IEEE 754 binary64 with round to nearest, ties to even. A number is a sign and a magnitude, the
exponent field followed by the fraction field; read as one natural number the magnitude orders the
finite numbers, so rounding picks a magnitude and overflow is comparison with the infinite one.
-/

namespace Effectus

/-- A binary64 bit pattern: the sign bit and the other 63 bits. -/
structure Float64 where
  neg : Bool
  mag : Nat
  fits : mag < 2 ^ 63
  deriving DecidableEq

namespace Float64

/-- The magnitude whose exponent field is all ones and whose fraction is zero. -/
def infMag : Nat := 2047 * 2 ^ 52

def isFinite (f : Float64) : Bool := decide (f.mag < infMag)

def isInf (f : Float64) : Bool := decide (f.mag = infMag)

def isNaN (f : Float64) : Bool := decide (infMag < f.mag)

/-- The integer significand of a finite magnitude. -/
def significand (mag : Nat) : Nat :=
  if mag < 2 ^ 52 then mag else 2 ^ 52 + mag % 2 ^ 52

/-- The power of two its significand is scaled by. -/
def scale (mag : Nat) : Int :=
  if mag < 2 ^ 52 then -1074 else (mag / 2 ^ 52 : Nat) - 1075

/-- The rational number a finite magnitude denotes. -/
def magValue (mag : Nat) : ℚ := significand mag * (2 : ℚ) ^ scale mag

/-- The rational number a finite number denotes. -/
def toRat (f : Float64) : ℚ := if f.neg then -magValue f.mag else magValue f.mag

/-- The quotient of two naturals rounded to the nearest, ties to even. -/
def divNearest (n d : Nat) : Nat :=
  if 2 * (n % d) < d then n / d
  else if d < 2 * (n % d) then n / d + 1
  else if n / d % 2 = 0 then n / d else n / d + 1

/-- The greatest `g` with `2 ^ g ≤ n / d`, for positive `n` and `d`. -/
def log2Ratio (n d : Nat) : Int :=
  let guess : Int := (Nat.log2 n : Int) - Nat.log2 d
  if d * 2 ^ guess.toNat ≤ n * 2 ^ (-guess).toNat then guess else guess - 1

/-- The power of two one unit of the significand is worth near `n / d`. -/
def unit (n d : Nat) : Int := max (log2Ratio n d - 52) (-1074)

/-- The magnitude nearest to `n / d`; the infinite one when it is too large. A significand that
rounds up to `2 ^ 53` carries into the exponent field by itself. -/
def roundRatio (n d : Nat) : Nat :=
  if n = 0 then 0
  else
    let e := unit n d
    let m := divNearest (n * 2 ^ (-e).toNat) (d * 2 ^ e.toNat)
    min ((e + 1074).toNat * 2 ^ 52 + m) infMag

theorem roundRatio_lt (n d : Nat) : roundRatio n d < 2 ^ 63 := by
  have h : infMag < 2 ^ 63 := by decide
  unfold roundRatio
  split
  · decide
  · exact lt_of_le_of_lt (min_le_right _ _) h

/-- The number nearest to the magnitude `|q|`, with the given sign. -/
def ofAbs (neg : Bool) (q : ℚ) : Float64 :=
  ⟨neg, roundRatio q.num.natAbs q.den, roundRatio_lt _ _⟩

/-- The number nearest to `q`; an exact zero has the given sign. -/
def ofRat (negZero : Bool) (q : ℚ) : Float64 :=
  ofAbs (if q = 0 then negZero else decide (q < 0)) q

/-- `float64(n)` for an integer. -/
def ofInt (n : Int) : Float64 := ofRat false n

theorem divNearest_le (n d : Nat) : divNearest n d ≤ n / d + 1 := by
  unfold divNearest
  split
  · omega
  split
  · omega
  split <;> omega

theorem log2Ratio_one {n : Nat} (hn : n ≠ 0) : log2Ratio n 1 = Nat.log2 n := by
  have h : 2 ^ n.log2 ≤ n := Nat.log2_self_le hn
  have hone : Nat.log2 1 = 0 := by decide
  simp [log2Ratio, hone, h]

/-- A nonzero integer below `2 ^ 64` rounds to a finite number: its significand is at most `2 ^ 53`, and its exponent
field far from all ones. -/
theorem roundRatio_lt_inf {n : Nat} (hn : n < 2 ^ 64) : roundRatio n 1 < infMag := by
  unfold roundRatio
  split
  · decide
  rename_i hne
  have hlog : n.log2 < 64 := (Nat.log2_lt hne).2 hn
  have hself : n < 2 ^ (n.log2 + 1) := Nat.lt_log2_self
  have hunit : unit n 1 = (n.log2 : Int) - 52 := by
    rw [unit, log2Ratio_one hne]
    omega
  dsimp only
  rw [hunit]
  refine lt_of_le_of_lt (min_le_left _ _) ?_
  have hm : divNearest (n * 2 ^ (-((n.log2 : Int) - 52)).toNat) (1 * 2 ^ ((n.log2 : Int) - 52).toNat) ≤ 2 ^ 53 := by
    refine (divNearest_le _ _).trans (Nat.succ_le_of_lt ((Nat.div_lt_iff_lt_mul (by positivity)).2 ?_))
    rw [one_mul, ← pow_add]
    calc n * 2 ^ (-((n.log2 : Int) - 52)).toNat
        < 2 ^ (n.log2 + 1) * 2 ^ (-((n.log2 : Int) - 52)).toNat := by gcongr
      _ = 2 ^ (53 + ((n.log2 : Int) - 52).toNat) := by
        rw [← pow_add]
        congr 1
        omega
  have he : ((n.log2 : Int) - 52 + 1074).toNat ≤ 1085 := by omega
  calc _ ≤ 1085 * 2 ^ 52 + 2 ^ 53 := by gcongr
    _ < infMag := by decide

theorem isFinite_ofInt {n : Int} (hn : n.natAbs < 2 ^ 64) : (ofInt n).isFinite = true := by
  have h : roundRatio (n : ℚ).num.natAbs (n : ℚ).den < infMag := by
    rw [Rat.num_intCast, Rat.den_intCast]
    exact roundRatio_lt_inf hn
  exact decide_eq_true h

/-- A quiet NaN. -/
def nan : Float64 := ⟨false, infMag + 1, by decide⟩

def inf (neg : Bool) : Float64 := ⟨neg, infMag, by decide⟩

/-- The order of the numbers that are not NaN; the two zeros are equal. -/
def key (f : Float64) : Int := if f.neg then -(f.mag : Int) else f.mag

/-- Go's `==`. -/
def eq (a b : Float64) : Bool := !a.isNaN && !b.isNaN && decide (a.key = b.key)

/-- Go's `<`. -/
def lt (a b : Float64) : Bool := !a.isNaN && !b.isNaN && decide (a.key < b.key)

/-- Go's `<=`. -/
def le (a b : Float64) : Bool := !a.isNaN && !b.isNaN && decide (a.key ≤ b.key)

def negate (f : Float64) : Float64 := { f with neg := !f.neg }

/-- Go's `+`. A sum of finite numbers that is exactly zero is `-0` only when both are. -/
def add (a b : Float64) : Float64 :=
  if a.isNaN || b.isNaN then nan
  else if a.isInf then (if b.isInf && a.neg != b.neg then nan else a)
  else if b.isInf then b
  else ofRat (a.neg && b.neg) (a.toRat + b.toRat)

/-- Go's `-`. -/
def sub (a b : Float64) : Float64 := add a (negate b)

/-- Go's `*`. -/
def mul (a b : Float64) : Float64 :=
  if a.isNaN || b.isNaN then nan
  else if a.isInf || b.isInf then (if a.mag = 0 || b.mag = 0 then nan else inf (a.neg != b.neg))
  else ofAbs (a.neg != b.neg) (a.toRat * b.toRat)

/-- Go's `/`. -/
def div (a b : Float64) : Float64 :=
  if a.isNaN || b.isNaN then nan
  else if a.isInf then (if b.isInf then nan else inf (a.neg != b.neg))
  else if b.isInf then ⟨a.neg != b.neg, 0, by decide⟩
  else if b.mag = 0 then (if a.mag = 0 then nan else inf (a.neg != b.neg))
  else ofAbs (a.neg != b.neg) (a.toRat / b.toRat)

end Float64

end Effectus

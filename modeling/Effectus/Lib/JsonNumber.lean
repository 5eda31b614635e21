import Effectus.Lib.Text
import Mathlib.Data.List.TakeWhile
import Mathlib.Data.Rat.Defs
import Mathlib.Data.Rat.Lemmas
import Mathlib.Algebra.Field.Rat
import Mathlib.Tactic.Ring
import Mathlib.Tactic.NormNum

/-!
The number literals of JSON. A literal keeps its spelling; its parts are what a scanner reads, and
its value is the exact decimal number they spell.
-/

namespace Effectus

namespace Text

def isDigit (b : UInt8) : Bool := 0x30 ≤ b && b ≤ 0x39

/-- The natural number a run of digits spells, given the value of the digits before it. -/
def digitsValue (acc : Nat) : Text → Nat
  | [] => acc
  | b :: t => digitsValue (10 * acc + (b - 0x30).toNat) t

end Text

/-- What a number literal is made of: the sign, the digits before and after the point, and the
exponent with its sign. -/
structure NumberParts where
  neg : Bool
  int : Text
  frac : Text
  exp : Option (Bool × Text)
  deriving DecidableEq

namespace NumberParts

/-- The exponent as an integer, zero when absent. -/
def exponent (p : NumberParts) : Int :=
  match p.exp with
  | none => 0
  | some (true, ds) => -(Text.digitsValue 0 ds : Int)
  | some (false, ds) => Text.digitsValue 0 ds

/-- The absolute value the literal spells. -/
def absValue (p : NumberParts) : ℚ :=
  (Text.digitsValue 0 (p.int ++ p.frac) : ℚ) * (10 : ℚ) ^ (p.exponent - p.frac.length)

/-- The value the literal spells. -/
def value (p : NumberParts) : ℚ := if p.neg then -p.absValue else p.absValue

end NumberParts

namespace Text

/-- The digits before the point: a single zero, or digits that do not start with one. -/
def scanInt : Text → Option (Text × Text)
  | [] => none
  | b :: t =>
    if b == 0x30 then some ([b], t)
    else if isDigit b then some (b :: t.takeWhile isDigit, t.dropWhile isDigit)
    else none

/-- The point and at least one digit, or nothing. -/
def scanFrac : Text → Option (Text × Text)
  | 0x2E :: t => if (t.takeWhile isDigit).isEmpty then none else some (t.takeWhile isDigit, t.dropWhile isDigit)
  | t => some ([], t)

/-- The sign of an exponent. -/
def scanExpSign : Text → Bool × Text
  | 0x2D :: t => (true, t)
  | 0x2B :: t => (false, t)
  | t => (false, t)

/-- The exponent, or nothing. -/
def scanExp : Text → Option (Option (Bool × Text) × Text)
  | [] => some (none, [])
  | b :: t =>
    if b == 0x65 || b == 0x45 then
      let (neg, t) := scanExpSign t
      if (t.takeWhile isDigit).isEmpty then none
      else some (some (neg, t.takeWhile isDigit), t.dropWhile isDigit)
    else some (none, b :: t)

/-- The sign of a number. -/
def scanSign : Text → Bool × Text
  | 0x2D :: t => (true, t)
  | t => (false, t)

/-- The longest number literal at the front, and what follows it. -/
def scanNumber (t : Text) : Option (NumberParts × Text) := do
  let (neg, t) := scanSign t
  let (int, t) ← scanInt t
  let (frac, t) ← scanFrac t
  let (exp, t) ← scanExp t
  return (⟨neg, int, frac, exp⟩, t)

/-- The parts of a text that is one number literal. -/
def numberParts? (t : Text) : Option NumberParts :=
  match scanNumber t with
  | some (p, []) => some p
  | _ => none

end Text

/-- A text that is a JSON number literal. -/
structure JsonNumber where
  text : Text
  valid : (Text.numberParts? text).isSome
  deriving DecidableEq

/-- The parts of a literal. -/
def JsonNumber.parts (n : JsonNumber) : NumberParts := (Text.numberParts? n.text).get n.valid

/-! ### Integer literals -/

namespace Text

/-- The digits of `n` in front of `acc`. -/
def digitsOnto : Nat → Nat → Text → Text
  | 0, _, acc => acc
  | fuel + 1, n, acc =>
    if n / 10 = 0 then UInt8.ofNat (0x30 + n % 10) :: acc
    else digitsOnto fuel (n / 10) (UInt8.ofNat (0x30 + n % 10) :: acc)

/-- The decimal digits of `n`, without a leading zero. -/
def decimal (n : Nat) : Text := digitsOnto (n + 1) n []

theorem toNat_digit {d : Nat} (h : d < 10) : (UInt8.ofNat (0x30 + d)).toNat = 0x30 + d := by
  rw [UInt8.toNat_ofNat']
  omega

theorem sub_digit {d : Nat} (h : d < 10) : (UInt8.ofNat (0x30 + d) - 0x30).toNat = d := by
  rw [UInt8.toNat_sub_of_le _ _ (by rw [UInt8.le_iff_toNat_le, toNat_digit h]; simp), toNat_digit h]
  simp

theorem isDigit_digit {d : Nat} (h : d < 10) : isDigit (UInt8.ofNat (0x30 + d)) = true := by
  have ht := toNat_digit h
  simp only [isDigit, Bool.and_eq_true, decide_eq_true_eq, UInt8.le_iff_toNat_le, ht]
  simp
  omega

theorem digitsValue_cons (acc : Nat) (b : UInt8) (t : Text) :
    digitsValue acc (b :: t) = digitsValue (10 * acc + (b - 0x30).toNat) t := rfl

theorem digitsValue_append (acc : Nat) (a b : Text) :
    digitsValue acc (a ++ b) = digitsValue (digitsValue acc a) b := by
  induction a generalizing acc with
  | nil => rfl
  | cons x a ih => rw [List.cons_append, digitsValue_cons, digitsValue_cons, ih]

/-- The digits written so far are a prefix that spells `n`; a nonzero `n` has no leading zero. -/
theorem digitsOnto_spec (fuel n : Nat) (acc : Text) (h : n < fuel) :
    ∃ ds, digitsOnto fuel n acc = ds ++ acc ∧ digitsValue 0 ds = n ∧ (∀ b ∈ ds, isDigit b = true) ∧
      ∃ b t, ds = b :: t ∧ (b = 0x30 → t = [] ∧ n = 0) := by
  induction fuel generalizing n acc with
  | zero => omega
  | succ fuel ih =>
    have hd : n % 10 < 10 := Nat.mod_lt _ (by decide)
    have hdigit := isDigit_digit hd
    have hval := toNat_digit hd
    unfold digitsOnto
    split
    · rename_i h0
      refine ⟨[UInt8.ofNat (0x30 + n % 10)], rfl, ?_, by simpa using hdigit, _, _, rfl, ?_⟩
      · rw [digitsValue_cons, sub_digit hd]
        show 10 * 0 + n % 10 = n
        omega
      · intro hb
        have hz := congrArg UInt8.toNat hb
        rw [hval] at hz
        simp at hz
        exact ⟨rfl, by omega⟩
    · rename_i h0
      obtain ⟨ds, he, hv, hall, b, t, rfl, hlead⟩ := ih (n / 10) (UInt8.ofNat (0x30 + n % 10) :: acc) (by omega)
      refine ⟨(b :: t) ++ [UInt8.ofNat (0x30 + n % 10)], ?_, ?_, ?_, b, t ++ [_], rfl, ?_⟩
      · rw [he]
        simp
      · rw [digitsValue_append, hv, digitsValue_cons, sub_digit hd]
        show 10 * (n / 10) + n % 10 = n
        omega
      · intro x hx
        rcases List.mem_append.1 hx with hx | hx
        · exact hall x hx
        · rw [List.mem_singleton.1 hx]
          exact hdigit
      · intro hb
        exact absurd (hlead hb).2 h0

theorem isSolid_digit {b : UInt8} (h : isDigit b = true) : IsSolid b := by
  obtain ⟨hlow, hhigh⟩ := Bool.and_eq_true_iff.1 h
  exact ⟨UInt8.le_trans (by decide) (of_decide_eq_true hlow), UInt8.lt_of_le_of_lt (of_decide_eq_true hhigh) (by decide)⟩

theorem decimal_spec (n : Nat) :
    digitsValue 0 (decimal n) = n ∧ (∀ b ∈ decimal n, isDigit b = true) ∧
      ∃ b t, decimal n = b :: t ∧ (b = 0x30 → t = [] ∧ n = 0) := by
  obtain ⟨ds, he, hv, hall, hlead⟩ := digitsOnto_spec (n + 1) n [] (Nat.lt_succ_self n)
  rw [List.append_nil] at he
  rw [decimal, he]
  exact ⟨hv, hall, hlead⟩

theorem takeWhile_digits {t : Text} (h : ∀ b ∈ t, isDigit b = true) : t.takeWhile isDigit = t :=
  List.takeWhile_eq_self_iff.2 h

theorem dropWhile_digits {t : Text} (h : ∀ b ∈ t, isDigit b = true) : t.dropWhile isDigit = [] :=
  List.dropWhile_eq_nil_iff.2 h

theorem scanInt_decimal (n : Nat) : scanInt (decimal n) = some (decimal n, []) := by
  obtain ⟨-, hall, b, t, he, hlead⟩ := decimal_spec n
  rw [he] at hall ⊢
  have ht : ∀ x ∈ t, isDigit x = true := fun x hx => hall x (List.mem_cons_of_mem _ hx)
  by_cases hb : b = 0x30
  · obtain ⟨rfl, -⟩ := hlead hb
    simp [scanInt, hb]
  · simp only [scanInt, beq_iff_eq, hb, if_false, hall b (List.mem_cons_self ..), if_true,
      takeWhile_digits ht, dropWhile_digits ht]

theorem numberParts?_decimal (neg : Bool) (n : Nat) :
    numberParts? ((if neg then [0x2D] else []) ++ decimal n) = some ⟨neg, decimal n, [], none⟩ := by
  have hsign : scanSign ((if neg then [0x2D] else []) ++ decimal n) = (neg, decimal n) := by
    cases neg with
    | true => rfl
    | false =>
      obtain ⟨-, hall, b, t, he, -⟩ := decimal_spec n
      have hb : isDigit b = true := hall b (by rw [he]; exact List.mem_cons_self ..)
      have hne : b ≠ 0x2D := by
        rintro rfl
        exact absurd hb (by decide)
      simp only [Bool.false_eq_true, if_false, List.nil_append, he]
      unfold scanSign
      split
      · rename_i heq
        exact absurd (List.cons.inj heq).1 hne
      · rfl
  simp only [numberParts?, scanNumber, hsign, scanInt_decimal, Option.bind_eq_bind, Option.bind_some]
  rfl

end Text

/-- The literal `strconv` writes for an integer. -/
def JsonNumber.ofInt (n : Int) : JsonNumber where
  text := (if decide (n < 0) then [0x2D] else []) ++ Text.decimal n.natAbs
  valid := by rw [Text.numberParts?_decimal]; rfl

theorem JsonNumber.parts_ofInt (n : Int) :
    (JsonNumber.ofInt n).parts = ⟨decide (n < 0), Text.decimal n.natAbs, [], none⟩ := by
  have h : Text.numberParts? (JsonNumber.ofInt n).text =
      some ⟨decide (n < 0), Text.decimal n.natAbs, [], none⟩ := Text.numberParts?_decimal _ _
  simp only [JsonNumber.parts, h, Option.get_some]

theorem JsonNumber.value_ofInt (n : Int) : (JsonNumber.ofInt n).parts.value = n := by
  have hv := (Text.decimal_spec n.natAbs).1
  rw [JsonNumber.parts_ofInt]
  simp only [NumberParts.value, NumberParts.absValue, NumberParts.exponent, List.append_nil, hv,
    List.length_nil, Nat.cast_zero, sub_zero, zpow_zero, mul_one, decide_eq_true_eq]
  split <;> rename_i h
  · rw [← Int.cast_natCast, Int.ofNat_natAbs_of_nonpos (le_of_lt h)]
    push_cast
    ring
  · rw [← Int.cast_natCast, Int.natAbs_of_nonneg (not_lt.1 h)]

example : Text.numberParts? ("-1.50e+3" : Text) =
    some ⟨true, ("1" : Text), ("50" : Text), some (false, ("3" : Text))⟩ := by decide

end Effectus

import Effectus.Lib.Text

/-!
UTF-8 as Go's decoder reads it. `runeLen` is the width of the encoding at the front of a text, zero
where Go reports `RuneError` for the first byte; validity and repair are loops over it.
-/

namespace Effectus

namespace Text

/-- A continuation byte. -/
def isTail (b : UInt8) : Bool := 0x80 ≤ b && b ≤ 0xBF

/-- The number of bytes a lead byte announces, zero for a byte that starts no encoding. -/
def leadLen (a : UInt8) : Nat :=
  if a < 0x80 then 1
  else if 0xC2 ≤ a && a ≤ 0xDF then 2
  else if 0xE0 ≤ a && a ≤ 0xEF then 3
  else if 0xF0 ≤ a && a ≤ 0xF4 then 4
  else 0

/-- The second byte's range: narrowed after the leads that would otherwise allow an overlong form, a
surrogate or a rune past U+10FFFF. -/
def secondOk (a b : UInt8) : Bool :=
  if a == 0xE0 then 0xA0 ≤ b && b ≤ 0xBF
  else if a == 0xED then 0x80 ≤ b && b ≤ 0x9F
  else if a == 0xF0 then 0x90 ≤ b && b ≤ 0xBF
  else if a == 0xF4 then 0x80 ≤ b && b ≤ 0x8F
  else isTail b

/-- The width of the valid encoding at the front, zero if there is none. -/
def runeLen : Text → Nat
  | [] => 0
  | a :: rest =>
    match leadLen a, rest with
    | 1, _ => 1
    | 2, b :: _ => if secondOk a b then 2 else 0
    | 3, b :: c :: _ => if secondOk a b && isTail c then 3 else 0
    | 4, b :: c :: d :: _ => if secondOk a b && isTail c && isTail d then 4 else 0
    | _, _ => 0

/-- `fuel` bounds the number of runes read. -/
def validFrom : Nat → Text → Bool
  | 0, t => t.isEmpty
  | fuel + 1, t => t.isEmpty || (runeLen t != 0 && validFrom fuel (t.drop (runeLen t)))

/-- `utf8.ValidString`. -/
def validUTF8 (t : Text) : Bool := validFrom t.length t

/-- The encoding of U+FFFD. -/
def replacement : Text := [0xEF, 0xBF, 0xBD]

/-- Each byte that starts no valid encoding becomes U+FFFD. -/
def repairFrom : Nat → Text → Text
  | 0, _ => []
  | _ + 1, [] => []
  | fuel + 1, b :: t =>
    match runeLen (b :: t) with
    | 0 => replacement ++ repairFrom fuel t
    | width + 1 => (b :: t).take (width + 1) ++ repairFrom fuel ((b :: t).drop (width + 1))

/-- `strings.ToValidUTF8` with U+FFFD for each bad byte, which is what `encoding/json` writes. -/
def repairUTF8 (t : Text) : Text := repairFrom t.length t

/-! ### Quoting -/

def hexDigit (n : Nat) : UInt8 := if n < 10 then UInt8.ofNat (0x30 + n) else UInt8.ofNat (0x57 + n)

/-- An ASCII byte inside a Go string literal. -/
def quoteByte (b : UInt8) : Text :=
  if b == 0x22 || b == 0x5C then [0x5C, b]
  else if b == 0x07 then [0x5C, 0x61]
  else if b == 0x08 then [0x5C, 0x62]
  else if b == 0x0C then [0x5C, 0x66]
  else if b == 0x0A then [0x5C, 0x6E]
  else if b == 0x0D then [0x5C, 0x72]
  else if b == 0x09 then [0x5C, 0x74]
  else if b == 0x0B then [0x5C, 0x76]
  else if b < 0x20 || 0x7F ≤ b then [0x5C, 0x78, hexDigit (b.toNat / 16), hexDigit (b.toNat % 16)]
  else [b]

def quoteFrom : Nat → Text → Text
  | 0, _ => []
  | _ + 1, [] => []
  | fuel + 1, b :: t =>
    if 1 < runeLen (b :: t) then
      (b :: t).take (runeLen (b :: t)) ++ quoteFrom fuel ((b :: t).drop (runeLen (b :: t)))
    else quoteByte b ++ quoteFrom fuel t

/-- `%q`. Runes past ASCII are taken to be printable. -/
def quote (t : Text) : Text := [0x22] ++ quoteFrom t.length t ++ [0x22]

/-! ### Repaired texts are valid -/

theorem runeLen_le (t : Text) : runeLen t ≤ t.length := by
  rcases t with _ | ⟨a, rest⟩
  · simp [runeLen]
  · simp only [runeLen]
    split <;> first | simp; done | (split <;> simp)

/-- A text's first rune is read from its own bytes alone. -/
theorem runeLen_take_append (t u : Text) (h : runeLen t ≠ 0) :
    runeLen (t.take (runeLen t) ++ u) = runeLen t := by
  rcases t with _ | ⟨a, rest⟩
  · simp [runeLen] at h
  · revert h
    simp only [runeLen]
    split
    · rename_i hl
      simp [hl]
    · rename_i b tail hl
      split <;> rename_i hb <;> simp [hl, hb]
    · rename_i b c tail hl
      split <;> rename_i hb <;> simp [hl, hb]
    · rename_i b c d tail hl
      split <;> rename_i hb <;> simp [hl, hb]
    · simp

/-- More fuel than bytes changes nothing. -/
theorem validFrom_of_le {t : Text} : ∀ {fuel : Nat}, t.length ≤ fuel → validFrom fuel t = validUTF8 t := by
  suffices h : ∀ n m (t : Text), t.length ≤ n → t.length ≤ m → validFrom n t = validFrom m t by
    intro fuel hf
    exact h fuel t.length t hf (Nat.le_refl _)
  intro n
  induction n with
  | zero =>
    intro m t hn _
    have ht : t = [] := List.eq_nil_of_length_eq_zero (Nat.le_zero.1 hn)
    subst ht
    cases m <;> simp [validFrom]
  | succ n ih =>
    intro m t hn hm
    cases m with
    | zero =>
      have ht : t = [] := List.eq_nil_of_length_eq_zero (Nat.le_zero.1 hm)
      simp [ht, validFrom]
    | succ m =>
      simp only [validFrom]
      by_cases h0 : runeLen t = 0
      · simp [h0]
      · rw [ih m (t.drop (runeLen t)) (by simp; omega) (by simp; omega)]

/-- A rune in front of a text does not change its validity. -/
theorem validUTF8_take_append {t u : Text} (h : runeLen t ≠ 0) :
    validUTF8 (t.take (runeLen t) ++ u) = validUTF8 u := by
  have hlen : (t.take (runeLen t)).length = runeLen t := by
    simp [runeLen_le t]
  have hpos : 0 < (t.take (runeLen t) ++ u).length := by
    rw [List.length_append, hlen]; omega
  obtain ⟨n, hn⟩ := Nat.exists_eq_succ_of_ne_zero (Nat.ne_of_gt hpos)
  have hne : (t.take (runeLen t) ++ u).isEmpty = false := by
    cases hc : t.take (runeLen t) ++ u with
    | nil => simp [hc] at hpos
    | cons _ _ => rfl
  have hdrop : (t.take (runeLen t) ++ u).drop (runeLen t) = u := List.drop_left' hlen
  have hu : u.length ≤ n := by
    rw [List.length_append, hlen] at hn
    omega
  rw [validUTF8, hn, validFrom, hne, runeLen_take_append t u h, hdrop, validFrom_of_le hu]
  simp [h]

theorem validUTF8_repairFrom : ∀ (fuel : Nat) (t : Text), validUTF8 (repairFrom fuel t) = true
  | 0, _ => rfl
  | _ + 1, [] => rfl
  | fuel + 1, b :: t => by
    simp only [repairFrom]
    split
    · have hr : runeLen replacement = 3 := by decide
      have h := validUTF8_take_append (t := replacement) (u := repairFrom fuel t) (by simp [hr])
      rw [hr] at h
      exact h.trans (validUTF8_repairFrom fuel t)
    · rename_i width hw
      have h := validUTF8_take_append (t := b :: t) (u := repairFrom fuel ((b :: t).drop (width + 1)))
        (by simp [hw])
      rw [hw] at h
      exact h.trans (validUTF8_repairFrom fuel _)

/-- Nothing is repaired in a valid text. -/
theorem repairFrom_of_valid : ∀ {fuel : Nat} {t : Text}, t.length ≤ fuel → validFrom fuel t = true → repairFrom fuel t = t
  | 0, t, hfuel, _ => by rw [List.eq_nil_of_length_eq_zero (Nat.le_zero.1 hfuel), repairFrom]
  | _ + 1, [], _, _ => rfl
  | fuel + 1, b :: t, hfuel, h => by
    rw [validFrom, List.isEmpty_cons, Bool.false_or, Bool.and_eq_true, bne_iff_ne] at h
    obtain ⟨hne, hrest⟩ := h
    rw [repairFrom]
    cases hwidth : runeLen (b :: t) with
    | zero => exact absurd hwidth hne
    | succ width =>
      rw [hwidth] at hrest
      have hlength : ((b :: t).drop (width + 1)).length ≤ fuel := by
        rw [List.length_drop]
        omega
      show (b :: t).take (width + 1) ++ repairFrom fuel ((b :: t).drop (width + 1)) = b :: t
      rw [repairFrom_of_valid hlength hrest, List.take_append_drop]

theorem repairUTF8_of_valid {t : Text} (h : validUTF8 t = true) : repairUTF8 t = t :=
  repairFrom_of_valid (Nat.le_refl _) h

theorem validUTF8_repairUTF8 (t : Text) : validUTF8 (repairUTF8 t) = true :=
  validUTF8_repairFrom _ _

end Text

/-- A valid UTF-8 text. -/
structure Utf8Text where
  bytes : Text
  valid : Text.validUTF8 bytes = true
  deriving DecidableEq

namespace Utf8Text

/-- Texts are ordered by their bytes. -/
instance : LT Utf8Text := ⟨fun a b => a.bytes < b.bytes⟩

instance : DecidableLT Utf8Text := fun a b => inferInstanceAs (Decidable (a.bytes < b.bytes))

instance : Std.Irrefl fun a b : Utf8Text => a < b := ⟨fun a => Std.Irrefl.irrefl (r := fun x y : Text => x < y) a.bytes⟩

instance : Trans (fun a b : Utf8Text => a < b) (fun a b : Utf8Text => a < b) fun a b : Utf8Text => a < b :=
  ⟨fun {a b c} hab hbc => show a.bytes < c.bytes from List.lt_trans (show a.bytes < b.bytes from hab) hbc⟩

theorem ext {a b : Utf8Text} (h : a.bytes = b.bytes) : a = b := by
  cases a
  cases b
  cases h
  rfl

instance : Std.Trichotomous fun a b : Utf8Text => a < b :=
  ⟨fun a b hab hba => ext (Std.Trichotomous.trichotomous (r := fun x y : Text => x < y) a.bytes b.bytes hab hba)⟩

end Utf8Text

/-- What `encoding/json` writes for a string. -/
def Utf8Text.repair (t : Text) : Utf8Text := ⟨Text.repairUTF8 t, Text.validUTF8_repairUTF8 t⟩

end Effectus

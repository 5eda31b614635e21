import Mathlib.Data.List.Basic

/-!
Byte strings as Go has them: any sequence of bytes, ordered byte by byte. A literal is the UTF-8
encoding of its characters, and trimming removes the encodings of Unicode's white space.
-/

namespace Effectus

/-- A Go `string`: bytes, not necessarily UTF-8. -/
abbrev Text := List UInt8

-- Named, so that a definition over byte strings mentions these and no proof of its own.
instance : LawfulBEq Text := List.instLawfulBEq

instance : Trans (fun a b : Text => a < b) (fun a b : Text => a < b) fun a b : Text => a < b := ⟨List.lt_trans⟩

instance : Std.Trichotomous fun a b : Text => a < b := inferInstance

/-- What holds of every byte can be tried out. -/
theorem forall_byte {P : UInt8 → Prop} (h : ∀ n < 256, P (.ofNat n)) (b : UInt8) : P b := by
  have := h b.toNat b.toNat_lt
  rwa [UInt8.ofNat_toNat] at this

namespace Text

/-- The bytes of a literal. -/
def ofString (s : String) : Text := s.toList.flatMap String.utf8EncodeChar

instance : Coe String Text := ⟨ofString⟩

/-- An integer as `%d` prints it. -/
def ofInt (n : Int) : Text := ofString (toString n)

/-- Go's `<` on strings. -/
def lt (a b : Text) : Bool := decide (a < b)

/-! ### White space -/

/-- The UTF-8 encodings of the runes `unicode.IsSpace` accepts. -/
def spaces : List Text :=
  [[0x09], [0x0A], [0x0B], [0x0C], [0x0D], [0x20], [0xC2, 0x85], [0xC2, 0xA0], [0xE1, 0x9A, 0x80],
    [0xE2, 0x80, 0x80], [0xE2, 0x80, 0x81], [0xE2, 0x80, 0x82], [0xE2, 0x80, 0x83],
    [0xE2, 0x80, 0x84], [0xE2, 0x80, 0x85], [0xE2, 0x80, 0x86], [0xE2, 0x80, 0x87],
    [0xE2, 0x80, 0x88], [0xE2, 0x80, 0x89], [0xE2, 0x80, 0x8A], [0xE2, 0x80, 0xA8],
    [0xE2, 0x80, 0xA9], [0xE2, 0x80, 0xAF], [0xE2, 0x81, 0x9F], [0xE3, 0x80, 0x80]]

/-- Drop from the front, at most `fuel` times, any text of `ps`. -/
def dropFront (ps : List Text) : Nat → Text → Text
  | 0, t => t
  | fuel + 1, t =>
    match ps.find? (fun p => p.isPrefixOf t) with
    | some p => dropFront ps fuel (t.drop p.length)
    | none => t

/-- `strings.TrimSpace`. Each drop removes at least one byte, so the length is fuel enough. The
right end is trimmed as the left end of the reversed text: the lead byte of an encoding is never a
continuation byte, so the last rune of a text is a space exactly when its encoding is a suffix. -/
def trimSpace (t : Text) : Text :=
  let left := dropFront spaces t.length t
  (dropFront (spaces.map List.reverse) left.length left.reverse).reverse

theorem dropFront_suffix (ps : List Text) : ∀ (fuel : Nat) (t : Text), dropFront ps fuel t <:+ t
  | 0, t => List.suffix_rfl
  | fuel + 1, t => by
    unfold dropFront
    split
    · exact (dropFront_suffix ps fuel _).trans (List.drop_suffix _ _)
    · exact List.suffix_rfl

/-- With fuel enough nothing is left to drop. -/
theorem dropFront_clean {ps : List Text} (hps : [] ∉ ps) : ∀ {fuel : Nat} {t : Text}, t.length ≤ fuel →
    ∀ p ∈ ps, ¬p <+: dropFront ps fuel t
  | 0, t, hfuel, p, hp => by
    rw [List.eq_nil_of_length_eq_zero (Nat.le_zero.1 hfuel)]
    intro hpre
    exact hps (List.prefix_nil.1 hpre ▸ hp)
  | fuel + 1, t, hfuel, p, hp => by
    unfold dropFront
    split
    · rename_i q hq
      have hne : q.length ≠ 0 := fun h => hps (List.eq_nil_of_length_eq_zero h ▸ List.mem_of_find?_eq_some hq)
      refine dropFront_clean hps ?_ p hp
      rw [List.length_drop]
      omega
    · rename_i hnone
      have := List.find?_eq_none.1 hnone p hp
      rwa [List.isPrefixOf_iff_prefix] at this

theorem dropFront_of_clean {ps : List Text} {t : Text} (h : ∀ p ∈ ps, ¬p <+: t) : ∀ fuel, dropFront ps fuel t = t
  | 0 => rfl
  | fuel + 1 => by
    unfold dropFront
    rw [List.find?_eq_none.2 fun p hp => by rw [List.isPrefixOf_iff_prefix]; exact h p hp]

/-- A trimmed text has nothing to trim. -/
theorem trimSpace_trimSpace (t : Text) : trimSpace (trimSpace t) = trimSpace t := by
  have hleft : ∀ p ∈ spaces, ¬p <+: dropFront spaces t.length t := dropFront_clean (by decide) (Nat.le_refl _)
  have hright : ∀ p ∈ spaces.map List.reverse, ¬p <+: dropFront (spaces.map List.reverse)
      (dropFront spaces t.length t).reverse.length (dropFront spaces t.length t).reverse :=
    dropFront_clean (by decide) (Nat.le_refl _)
  -- What is trimmed on the right still begins as before.
  have hpre : trimSpace t <+: dropFront spaces t.length t := by
    rw [← List.reverse_suffix, trimSpace, List.reverse_reverse]
    exact dropFront_suffix _ _ _
  have hout : ∀ p ∈ spaces, ¬p <+: trimSpace t := fun p hp h => hleft p hp (h.trans hpre)
  rw [trimSpace, dropFront_of_clean hout, dropFront_of_clean, List.reverse_reverse]
  rw [trimSpace, List.reverse_reverse, ← List.length_reverse]
  exact hright

/-- A printing byte of ASCII, which no space begins or ends with. -/
def IsSolid (b : UInt8) : Prop := 0x21 ≤ b ∧ b < 0x80

instance (b : UInt8) : Decidable (IsSolid b) := inferInstanceAs (Decidable (_ ∧ _))

/-- A text that begins and ends in such bytes is trimmed. -/
theorem trimSpace_of_solid {t : Text} (hfirst : ∀ b ∈ t.head?, IsSolid b) (hlast : ∀ b ∈ t.getLast?, IsSolid b) :
    trimSpace t = t := by
  have hclean : ∀ {ps : List Text} {u : Text}, (∀ p ∈ ps, ∃ b ∈ p.head?, ¬IsSolid b) → (∀ b ∈ u.head?, IsSolid b) →
      ∀ p ∈ ps, ¬p <+: u := by
    intro ps u hps hu p hp hpre
    obtain ⟨b, hb, hspace⟩ := hps p hp
    obtain ⟨rest, rfl⟩ := hpre
    cases p with
    | nil => cases hb
    | cons c p => exact hspace (hu b hb)
  have hspaces : ∀ p ∈ spaces, ∃ b ∈ p.head?, ¬IsSolid b := by decide
  have hreversed : ∀ p ∈ spaces.map List.reverse, ∃ b ∈ p.head?, ¬IsSolid b := by decide
  rw [trimSpace, dropFront_of_clean (hclean hspaces hfirst), dropFront_of_clean (hclean hreversed ?_), List.reverse_reverse]
  rw [List.head?_reverse]
  exact hlast

example : trimSpace ("  a b\n" : Text) = ("a b" : Text) := by decide

end Text

end Effectus

import Effectus.Lib.Json

/-!
Reading JSON back. A document is read from its text as it is, unless it is nested too deeply; once the members of its objects
are collected by their names it fits where it was read, and what fits comes back the same.
-/

namespace Effectus

namespace Json

/-! ### Strings -/

theorem hexValue_hexDigit : ∀ n < 16, hexValue (Text.hexDigit n) = some n := by decide

/-- A byte that stands for itself. -/
theorem scanString_plain {b : UInt8} (hquote : b ≠ 0x22) (hslash : b ≠ 0x5C) (hcontrol : ¬b < 0x20) (t : Text) :
    scanString (b :: t) = (scanString t).map fun (s, rest) => (b :: s, rest) := by
  rw [scanString.eq_def]
  split
  · rename_i h
    cases h
  · rename_i h
    cases h
    contradiction
  · rename_i h
    cases h
    contradiction
  · rename_i h
    cases h
    contradiction
  · rename_i heq
    cases heq
    rw [if_neg hcontrol]

/-- A backslash and a letter. -/
theorem scanString_letter {e b : UInt8} (he : e ≠ 0x75) (h : unescapeByte e = some b) (t : Text) :
    scanString (0x5C :: e :: t) = (scanString t).map fun (s, rest) => (b :: s, rest) := by
  rw [scanString.eq_def]
  split
  · rename_i heq
    cases heq
  · rename_i heq
    cases heq
  · rename_i heq
    cases heq
    contradiction
  · rename_i heq
    cases heq
    rw [h]
  · rename_i hletter heq
    cases heq
    exact absurd rfl (hletter _ _ rfl)

/-- A backslash and the number of a rune that is no surrogate. -/
theorem scanString_rune {a b c d : UInt8} {r : Nat} (h : hex4 a b c d = some r) (hhigh : isHigh r = false)
    (hlow : isLow r = false) (t : Text) :
    scanString (0x5C :: 0x75 :: a :: b :: c :: d :: t) =
      (scanString t).map fun (s, rest) => (encodeRune r ++ s, rest) := by
  rw [scanString.eq_def]
  split
  · rename_i heq
    cases heq
  · rename_i heq
    cases heq
  · rename_i heq
    cases heq
    simp only [h, hhigh, hlow, Bool.or_self, Bool.false_eq_true, if_false]
  · rename_i hrune heq
    cases heq
    exact absurd rfl (hrune _ _ _ _ _ rfl)
  · rename_i hletter heq
    cases heq
    exact absurd rfl (hletter _ _ rfl)

theorem hex4_byte (b : UInt8) :
    hex4 0x30 0x30 (Text.hexDigit (b.toNat / 16)) (Text.hexDigit (b.toNat % 16)) = some b.toNat := by
  have hb := b.toNat_lt
  have hzero : hexValue 0x30 = some 0 := by decide
  rw [hex4, hzero, hexValue_hexDigit _ (by omega), hexValue_hexDigit _ (by omega)]
  show some (((0 * 16 + 0) * 16 + b.toNat / 16) * 16 + b.toNat % 16) = some b.toNat
  congr 1
  omega

theorem scanString_escapeByte (b : UInt8) (t : Text) :
    scanString (escapeByte b ++ t) = (scanString t).map fun (s, rest) => (b :: s, rest) := by
  unfold escapeByte
  repeat' split
  all_goals simp only [beq_iff_eq, Bool.or_eq_true, decide_eq_true_eq] at *
  all_goals try subst b
  · exact scanString_letter (by decide) (by decide) t
  · exact scanString_letter (by decide) (by decide) t
  · exact scanString_letter (by decide) (by decide) t
  · exact scanString_letter (by decide) (by decide) t
  · exact scanString_letter (by decide) (by decide) t
  · exact scanString_letter (by decide) (by decide) t
  · exact scanString_letter (by decide) (by decide) t
  · rename_i hspecial
    -- A byte escaped by its number is below 0x80, so its encoding is the byte itself.
    have hsmall : b.toNat < 0x80 := by
      rcases hspecial with ((h | rfl) | rfl) | rfl
      · exact lt_trans (UInt8.lt_iff_toNat_lt.1 h) (by decide)
      · decide
      · decide
      · decide
    have hrune : encodeRune b.toNat = [b] := by
      rw [encodeRune, if_pos hsmall, UInt8.ofNat_toNat]
    have hread := scanString_rune (hex4_byte b) (by simp [isHigh]; omega) (by simp [isLow]; omega) t
    rw [hrune] at hread
    exact hread
  · rename_i hquote hslash _ _ _ _ _ hspecial
    exact scanString_plain hquote hslash (fun h => hspecial (.inl (.inl (.inl h)))) t

/-- A string literal reads back, up to its closing quote. -/
theorem scanString_escape (s rest : Text) : scanString (escape s ++ 0x22 :: rest) = some (s, rest) := by
  fun_induction escape s with
  | case1 t ih =>
    have hread := scanString_rune (show hex4 0x32 0x30 0x32 0x38 = some 0x2028 by decide) (by decide) (by decide)
      (escape t ++ 0x22 :: rest)
    rw [ih] at hread
    simpa [encodeRune] using hread
  | case2 t ih =>
    have hread := scanString_rune (show hex4 0x32 0x30 0x32 0x39 = some 0x2029 by decide) (by decide) (by decide)
      (escape t ++ 0x22 :: rest)
    rw [ih] at hread
    simpa [encodeRune] using hread
  | case3 b t _ _ ih => rw [List.append_assoc, scanString_escapeByte, ih, Option.map_some]
  | case4 => rfl

theorem decodeString_renderString (s : Utf8Text) (rest : Text) :
    decodeString (escape s.bytes ++ 0x22 :: rest) = some (s, rest) := by
  rw [decodeString, scanString_escape, Option.map_some]
  exact congrArg some (Prod.ext (Utf8Text.ext (Text.repairUTF8_of_valid s.valid)) rfl)

end Json

/-! ### Numbers -/

namespace Text

/-- What may follow a number without becoming part of it. -/
def Stops (rest : Text) : Prop :=
  ∀ b t, rest = b :: t → isDigit b = false ∧ b ≠ 0x2E ∧ b ≠ 0x65 ∧ b ≠ 0x45

theorem stops_nil : Stops [] := nofun

theorem stops_cons {b : UInt8} {t : Text} (h : isDigit b = false) (hdot : b ≠ 0x2E) (he : b ≠ 0x65) (hE : b ≠ 0x45) :
    Stops (b :: t) := by
  intro b' t' heq
  cases heq
  exact ⟨h, hdot, he, hE⟩

variable {rest : Text}

theorem Stops.takeWhile_append (h : Stops rest) (t : Text) : (t ++ rest).takeWhile isDigit = t.takeWhile isDigit := by
  induction t with
  | nil =>
    cases rest with
    | nil => rfl
    | cons b t => rw [List.nil_append, List.takeWhile_cons, (h b t rfl).1, if_neg (by decide), List.takeWhile_nil]
  | cons b t ih => rw [List.cons_append, List.takeWhile_cons, List.takeWhile_cons, ih]

theorem Stops.dropWhile_append (h : Stops rest) (t : Text) :
    (t ++ rest).dropWhile isDigit = t.dropWhile isDigit ++ rest := by
  induction t with
  | nil =>
    cases rest with
    | nil => rfl
    | cons b t => rw [List.nil_append, List.dropWhile_cons, (h b t rfl).1, if_neg (by decide), List.dropWhile_nil,
        List.nil_append]
  | cons b t ih =>
    rw [List.cons_append, List.dropWhile_cons, List.dropWhile_cons]
    split
    · exact ih
    · rfl

theorem Stops.scanInt (h : Stops rest) {t int left : Text} (hs : scanInt t = some (int, left)) :
    scanInt (t ++ rest) = some (int, left ++ rest) := by
  cases t with
  | nil => cases hs
  | cons b t =>
    rw [List.cons_append]
    unfold Text.scanInt at hs ⊢
    dsimp only at hs ⊢
    split
    · rename_i hb
      rw [if_pos hb] at hs
      cases hs
      rfl
    · rename_i hb
      rw [if_neg hb] at hs
      split
      · rename_i hd
        rw [if_pos hd] at hs
        cases hs
        rw [h.takeWhile_append, h.dropWhile_append]
      · rename_i hd
        rw [if_neg hd] at hs
        cases hs

theorem scanFrac_cons {b : UInt8} (hb : b ≠ 0x2E) (t : Text) : scanFrac (b :: t) = some ([], b :: t) := by
  unfold scanFrac
  split
  · rename_i heq
    cases heq
    contradiction
  · rfl

theorem Stops.scanFrac (h : Stops rest) {t frac left : Text} (hs : scanFrac t = some (frac, left)) :
    scanFrac (t ++ rest) = some (frac, left ++ rest) := by
  cases t with
  | nil =>
    cases hs
    cases rest with
    | nil => rfl
    | cons b t => exact scanFrac_cons (h b t rfl).2.1 t
  | cons b t =>
    by_cases hb : b = 0x2E
    · subst hb
      show (if ((t ++ rest).takeWhile isDigit).isEmpty then none else some ((t ++ rest).takeWhile isDigit,
        (t ++ rest).dropWhile isDigit)) = some (frac, left ++ rest)
      change (if (t.takeWhile isDigit).isEmpty then none else some (t.takeWhile isDigit, t.dropWhile isDigit)) =
        some (frac, left) at hs
      rw [h.takeWhile_append, h.dropWhile_append]
      split at hs
      · cases hs
      · rename_i hempty
        cases hs
        rw [if_neg hempty]
    · rw [scanFrac_cons hb] at hs
      cases hs
      exact scanFrac_cons hb _

theorem scanExpSign_append {t : Text} (ht : t ≠ []) (rest : Text) :
    scanExpSign (t ++ rest) = ((scanExpSign t).1, (scanExpSign t).2 ++ rest) := by
  rcases t with _ | ⟨b, t⟩
  · exact absurd rfl ht
  · unfold scanExpSign
    rw [List.cons_append]
    split
    · rename_i heq
      cases heq
      rfl
    · rename_i heq
      cases heq
      rfl
    · rename_i hminus hplus
      split
      · rename_i heq
        cases heq
        exact absurd rfl (hminus _)
      · rename_i heq
        cases heq
        exact absurd rfl (hplus _)
      · rfl

theorem Stops.scanExp (h : Stops rest) {t left : Text} {exp : Option (Bool × Text)}
    (hs : scanExp t = some (exp, left)) : scanExp (t ++ rest) = some (exp, left ++ rest) := by
  cases t with
  | nil =>
    cases hs
    cases rest with
    | nil => rfl
    | cons b t =>
      obtain ⟨-, -, he, hE⟩ := h b t rfl
      simp [Text.scanExp, he, hE]
  | cons b t =>
    rw [List.cons_append]
    unfold Text.scanExp at hs ⊢
    dsimp only at hs ⊢
    by_cases hb : (b == 0x65 || b == 0x45) = true
    · rw [if_pos hb] at hs ⊢
      have ht : t ≠ [] := by
        rintro rfl
        cases hs
      rw [scanExpSign_append ht]
      dsimp only
      rw [h.takeWhile_append, h.dropWhile_append]
      split at hs
      · cases hs
      · rename_i hempty
        cases hs
        rw [if_neg hempty]
    · rw [if_neg hb] at hs ⊢
      cases hs
      rfl

theorem scanSign_append {t : Text} (ht : t ≠ []) (rest : Text) :
    scanSign (t ++ rest) = ((scanSign t).1, (scanSign t).2 ++ rest) := by
  rcases t with _ | ⟨b, t⟩
  · exact absurd rfl ht
  · unfold scanSign
    rw [List.cons_append]
    split
    · rename_i heq
      cases heq
      rfl
    · rename_i hminus
      split
      · rename_i heq
        cases heq
        exact absurd rfl (hminus _)
      · rfl

/-- A number is read up to where it stops. -/
theorem Stops.scanNumber (h : Stops rest) {t left : Text} {p : NumberParts} (hs : scanNumber t = some (p, left)) :
    scanNumber (t ++ rest) = some (p, left ++ rest) := by
  have ht : t ≠ [] := by
    rintro rfl
    cases hs
  unfold Text.scanNumber at hs ⊢
  rw [scanSign_append ht]
  simp only [Option.bind_eq_bind, Option.bind_eq_some_iff, Prod.exists] at hs ⊢
  obtain ⟨int, t₁, hint, frac, t₂, hfrac, exp, t₃, hexp, hout⟩ := hs
  cases hout
  exact ⟨int, _, h.scanInt hint, frac, _, h.scanFrac hfrac, exp, _, h.scanExp hexp, rfl⟩

/-- A number starts with its sign or a digit. -/
theorem scanNumber_head {t left : Text} {p : NumberParts} (h : scanNumber t = some (p, left)) :
    ∃ b t', t = b :: t' ∧ (b = 0x2D ∨ isDigit b = true) := by
  rcases t with _ | ⟨b, t⟩
  · cases h
  · refine ⟨b, t, rfl, ?_⟩
    by_cases hb : b = 0x2D
    · exact .inl hb
    · right
      have hsign : scanSign (b :: t) = (false, b :: t) := by
        unfold scanSign
        split
        · rename_i heq
          cases heq
          contradiction
        · rfl
      unfold scanNumber at h
      rw [hsign] at h
      simp only [Option.bind_eq_bind, Option.bind_eq_some_iff, Prod.exists] at h
      obtain ⟨int, t₁, hint, -⟩ := h
      unfold scanInt at hint
      dsimp only at hint
      split at hint
      · rename_i hzero
        rw [beq_iff_eq.1 hzero]
        decide
      split at hint
      · assumption
      · cases hint

theorem numberParts?_scan {t : Text} {p : NumberParts} (h : numberParts? t = some p) : scanNumber t = some (p, []) := by
  unfold numberParts? at h
  split at h
  · rename_i heq
    cases h
    exact heq
  · cases h

end Text

namespace Json

theorem scanNumber_text (n : JsonNumber) : Text.scanNumber n.text = some (n.parts, []) :=
  Text.numberParts?_scan (Option.some_get n.valid).symm

theorem decodeNumber_text (n : JsonNumber) {rest : Text} (h : Text.Stops rest) :
    decodeNumber (n.text ++ rest) = some (.num n, rest) := by
  have hscan := h.scanNumber (scanNumber_text n)
  rw [List.nil_append] at hscan
  unfold decodeNumber
  rw [hscan]
  have hlength : (n.text ++ rest).take ((n.text ++ rest).length - rest.length) = n.text := by
    rw [List.length_append, Nat.add_sub_cancel, List.take_left]
  dsimp only
  split
  · congr
  · rename_i hno
    rw [hlength] at hno
    exact absurd n.valid hno

/-! ### Documents -/

mutual

/-- A document that may stand under `depth` open arrays and objects. -/
def Nested : Nat → Json → Prop
  | _, .null | _, .bool _ | _, .num _ | _, .str _ => True
  | depth, .arr items => depth < maxNesting ∧ NestedItems (depth + 1) items
  | depth, .obj members => depth < maxNesting ∧ NestedMembers (depth + 1) members

def NestedItems : Nat → List Json → Prop
  | _, [] => True
  | depth, x :: xs => Nested depth x ∧ NestedItems depth xs

def NestedMembers : Nat → List (Utf8Text × Json) → Prop
  | _, [] => True
  | depth, (_, x) :: ms => Nested depth x ∧ NestedMembers depth ms

end

theorem skipSpace_cons {b : UInt8} (h : isSpace b = false) (t : Text) : skipSpace (b :: t) = b :: t := by
  rw [skipSpace, List.dropWhile_cons, if_neg (by simp [h])]

theorem ne_of_isDigit {b c : UInt8} (hb : Text.isDigit b = true) (hc : Text.isDigit c = false) : b ≠ c := by
  rintro rfl
  rw [hb] at hc
  cases hc

/-- A number starts like no other value. -/
theorem number_head (n : JsonNumber) : ∃ b t, n.text = b :: t ∧ isSpace b = false ∧
    ∀ c ∈ [0x6E, 0x74, 0x66, 0x22, 0x5B, 0x7B, 0x5D], b ≠ c := by
  obtain ⟨b, t, ht, hb⟩ := Text.scanNumber_head (scanNumber_text n)
  refine ⟨b, t, ht, ?_⟩
  rcases hb with rfl | hb
  · exact ⟨by decide, by simp⟩
  · constructor
    · have h₁ := ne_of_isDigit hb (show Text.isDigit 0x20 = false by decide)
      have h₂ := ne_of_isDigit hb (show Text.isDigit 0x09 = false by decide)
      have h₃ := ne_of_isDigit hb (show Text.isDigit 0x0A = false by decide)
      have h₄ := ne_of_isDigit hb (show Text.isDigit 0x0D = false by decide)
      simp [isSpace, h₁, h₂, h₃, h₄]
    · intro c hc
      refine ne_of_isDigit hb ?_
      revert c
      simp [Text.isDigit]

/-- No document starts with a space, or as an array ends. -/
theorem render_head (j : Json) : ∃ b t, j.render = b :: t ∧ isSpace b = false ∧ b ≠ 0x5D := by
  rcases j with _ | b | n | s | items | members
  · exact ⟨_, _, rfl, by decide, by decide⟩
  · cases b
    · exact ⟨_, _, rfl, by decide, by decide⟩
    · exact ⟨_, _, rfl, by decide, by decide⟩
  · obtain ⟨b, t, ht, hspace, hne⟩ := number_head n
    exact ⟨b, t, ht, hspace, hne _ (by decide)⟩
  · exact ⟨_, _, rfl, by decide, by decide⟩
  · cases items
    · exact ⟨_, _, rfl, by decide, by decide⟩
    · exact ⟨_, _, rfl, by decide, by decide⟩
  · cases members
    · exact ⟨_, _, rfl, by decide, by decide⟩
    · exact ⟨_, _, rfl, by decide, by decide⟩

theorem readValue_number {fuel depth : Nat} (n : JsonNumber) (rest : Text) :
    readValue (fuel + 1) depth (n.text ++ rest) = decodeNumber (n.text ++ rest) := by
  obtain ⟨b, t, ht, hspace, hne⟩ := number_head n
  rw [ht, List.cons_append, readValue, skipSpace_cons hspace]
  split
  · rename_i heq
    exact absurd (List.cons.inj heq).1 (hne _ (by decide))
  · rename_i heq
    exact absurd (List.cons.inj heq).1 (hne _ (by decide))
  · rename_i heq
    exact absurd (List.cons.inj heq).1 (hne _ (by decide))
  · rename_i heq
    exact absurd (List.cons.inj heq).1 (hne _ (by decide))
  · rename_i heq
    exact absurd (List.cons.inj heq).1 (hne _ (by decide))
  · rename_i heq
    exact absurd (List.cons.inj heq).1 (hne _ (by decide))
  · rfl

theorem readValue_str {fuel depth : Nat} (t : Text) :
    readValue (fuel + 1) depth (0x22 :: t) = (decodeString t).map fun (s, rest) => (.str s, rest) := by
  rw [readValue, skipSpace_cons (by decide)]
  rfl

theorem readValue_arr {fuel depth : Nat} {b : UInt8} {t : Text} (hspace : isSpace b = false) (hne : b ≠ 0x5D) :
    readValue (fuel + 1) depth (0x5B :: b :: t) = if depth < maxNesting then
      (readItems fuel (depth + 1) (b :: t)).map fun (items, rest) => (.arr items, rest) else none := by
  rw [readValue, skipSpace_cons (by decide)]
  simp only [skipSpace_cons hspace]
  split
  · split
    · rename_i heq
      exact absurd (List.cons.inj heq).1 hne
    · rfl
  · rfl

theorem readValue_obj {fuel depth : Nat} (t : Text) :
    readValue (fuel + 1) depth (0x7B :: 0x22 :: t) = if depth < maxNesting then
      (readMembers fuel (depth + 1) (0x22 :: t)).map fun (ms, rest) => (.obj ms, rest) else none := by
  rw [readValue, skipSpace_cons (by decide)]
  rfl

theorem readItems_last {fuel depth : Nat} {t rest : Text} {x : Json}
    (h : readValue fuel depth t = some (x, 0x5D :: rest)) : readItems (fuel + 1) depth t = some ([x], rest) := by
  rw [readItems, h]
  rfl

theorem readItems_next {fuel depth : Nat} {t rest : Text} {x : Json}
    (h : readValue fuel depth t = some (x, 0x2C :: rest)) :
    readItems (fuel + 1) depth t = (readItems fuel depth rest).map fun (xs, rest) => (x :: xs, rest) := by
  rw [readItems, h]
  rfl

theorem readItems_none {fuel depth : Nat} {t : Text} (h : readValue fuel depth t = none) :
    readItems (fuel + 1) depth t = none := by
  rw [readItems, h]

section

variable {fuel depth : Nat} {t u rest : Text} {k : Utf8Text} {x : Json} (hk : decodeString t = some (k, 0x3A :: u))

include hk

theorem readMembers_last (hx : readValue fuel depth u = some (x, 0x7D :: rest)) :
    readMembers (fuel + 1) depth (0x22 :: t) = some ([(k, x)], rest) := by
  rw [readMembers, skipSpace_cons (by decide)]
  simp only [hk, skipSpace_cons (show isSpace 0x3A = false by decide), hx]
  rfl

theorem readMembers_next (hx : readValue fuel depth u = some (x, 0x2C :: rest)) :
    readMembers (fuel + 1) depth (0x22 :: t) =
      (readMembers fuel depth rest).map fun (ms, rest) => ((k, x) :: ms, rest) := by
  rw [readMembers, skipSpace_cons (by decide)]
  simp only [hk, skipSpace_cons (show isSpace 0x3A = false by decide), hx]
  rfl

theorem readMembers_none (hx : readValue fuel depth u = none) : readMembers (fuel + 1) depth (0x22 :: t) = none := by
  rw [readMembers, skipSpace_cons (by decide)]
  simp only [hk, skipSpace_cons (show isSpace 0x3A = false by decide), hx]

end

theorem stops_renderItems (xs : List Json) (rest : Text) : Text.Stops (renderItems xs ++ rest) := by
  cases xs with
  | nil => exact Text.stops_cons (by decide) (by decide) (by decide) (by decide)
  | cons x xs => exact Text.stops_cons (by decide) (by decide) (by decide) (by decide)

theorem stops_renderMembers (ms : List (Utf8Text × Json)) (rest : Text) : Text.Stops (renderMembers ms ++ rest) := by
  cases ms with
  | nil => exact Text.stops_cons (by decide) (by decide) (by decide) (by decide)
  | cons x ms => exact Text.stops_cons (by decide) (by decide) (by decide) (by decide)

theorem renderItems_length_pos (xs : List Json) : 0 < (renderItems xs).length := by
  cases xs <;> simp [renderItems]

theorem renderMembers_length_pos (ms : List (Utf8Text × Json)) : 0 < (renderMembers ms).length := by
  cases ms <;> simp [renderMembers]

/-! ### Reading what was written -/

/-- A reading ends in what was written, or in nothing where that is nested too deeply. -/
def ReadsAs {α : Type} (isNested : Prop) (x : α) (rest : Text) (found : Option (α × Text)) : Prop :=
  isNested ∧ found = some (x, rest) ∨ ¬isNested ∧ found = none

section

variable {α β : Type} {P Q : Prop} {x : α} {rest : Text} {found : Option (α × Text)}

theorem ReadsAs.inside (h : ReadsAs P x rest found) (depth : Nat) (f : α → β) : ReadsAs (depth < maxNesting ∧ P) (f x) rest
    (if depth < maxNesting then found.map (Prod.map f id) else none) := by
  by_cases hdepth : depth < maxNesting
  · rw [if_pos hdepth]
    rcases h with ⟨hp, rfl⟩ | ⟨hp, rfl⟩
    · exact .inl ⟨⟨hdepth, hp⟩, rfl⟩
    · exact .inr ⟨fun h => hp h.2, rfl⟩
  · exact .inr ⟨fun h => hdepth h.1, if_neg hdepth⟩

theorem ReadsAs.after (h : ReadsAs P x rest found) (hq : Q) (f : α → β) :
    ReadsAs (Q ∧ P) (f x) rest (found.map (Prod.map f id)) := by
  rcases h with ⟨hp, rfl⟩ | ⟨hp, rfl⟩
  · exact .inl ⟨⟨hq, hp⟩, rfl⟩
  · exact .inr ⟨fun h => hp h.2, rfl⟩

end

mutual

/-- Each byte of a document's text pays for at most two steps. -/
theorem readValue_render : ∀ (j : Json) {fuel : Nat}, 2 * j.render.length ≤ fuel → ∀ (depth : Nat) {rest : Text},
    Text.Stops rest → ReadsAs (Nested depth j) j rest (readValue fuel depth (j.render ++ rest))
  | j, 0, hfuel, _, _, _ => by
    have := List.length_pos_of_ne_nil (render_ne_nil j)
    omega
  | .null, _ + 1, _, _, _, _ => .inl ⟨trivial, rfl⟩
  | .bool true, _ + 1, _, _, _, _ => .inl ⟨trivial, rfl⟩
  | .bool false, _ + 1, _, _, _, _ => .inl ⟨trivial, rfl⟩
  | .num n, _ + 1, _, _, _, hstops => by
    refine .inl ⟨trivial, ?_⟩
    rw [render, readValue_number, decodeNumber_text n hstops]
  | .str s, _ + 1, _, _, _, _ => by
    refine .inl ⟨trivial, ?_⟩
    rw [render, renderString, List.cons_append, List.append_assoc, readValue_str, List.singleton_append,
      decodeString_renderString, Option.map_some]
  | .arr [], _ + 1, _, depth, rest, _ =>
    have hread : ReadsAs True ([] : List Json) rest (some ([], rest)) := .inl ⟨trivial, rfl⟩
    hread.inside depth Json.arr
  | .arr (x :: xs), fuel + 1, hfuel, depth, rest, _ => by
    rw [render, List.length_cons, List.length_append] at hfuel
    have hread := readItems_render x xs (show _ ≤ fuel by omega) (depth + 1) rest
    obtain ⟨b, t, hx, hspace, hne⟩ := render_head x
    rw [render, List.cons_append, List.append_assoc]
    rw [hx, List.cons_append] at hread ⊢
    rw [readValue_arr hspace hne]
    exact hread.inside depth Json.arr
  | .obj [], _ + 1, _, depth, rest, _ =>
    have hread : ReadsAs True ([] : List (Utf8Text × Json)) rest (some ([], rest)) := .inl ⟨trivial, rfl⟩
    hread.inside depth Json.obj
  | .obj ((k, x) :: ms), fuel + 1, hfuel, depth, rest, _ => by
    rw [render, List.length_cons, List.length_append, List.length_cons, List.length_append] at hfuel
    have hread := readMembers_render k x ms (show _ ≤ fuel by omega) (depth + 1) rest
    rw [render, List.cons_append, List.append_assoc, List.cons_append, List.append_assoc]
    rw [renderString, List.cons_append] at hread ⊢
    rw [readValue_obj]
    exact hread.inside depth Json.obj

theorem readItems_render : ∀ (x : Json) (xs : List Json) {fuel : Nat},
    2 * (x.render.length + (renderItems xs).length) ≤ fuel → ∀ (depth : Nat) (rest : Text),
    ReadsAs (NestedItems depth (x :: xs)) (x :: xs) rest (readItems fuel depth (x.render ++ (renderItems xs ++ rest)))
  | x, xs, 0, hfuel, _, _ => by
    have := renderItems_length_pos xs
    omega
  | x, [], fuel + 1, hfuel, depth, rest => by
    have := renderItems_length_pos []
    rcases readValue_render x (show _ ≤ fuel by omega) depth (stops_renderItems [] rest) with ⟨hn, hx⟩ | ⟨hn, hx⟩
    · exact .inl ⟨⟨hn, trivial⟩, readItems_last hx⟩
    · exact .inr ⟨fun h => hn h.1, readItems_none hx⟩
  | x, y :: ys, fuel + 1, hfuel, depth, rest => by
    have hy : (renderItems (y :: ys)).length = 1 + (y.render.length + (renderItems ys).length) := by
      rw [renderItems, List.length_cons, List.length_append]
      omega
    have hrest : renderItems (y :: ys) ++ rest = 0x2C :: (y.render ++ (renderItems ys ++ rest)) := by
      rw [renderItems, List.cons_append, List.append_assoc]
    have hread := readValue_render x (show _ ≤ fuel by omega) depth (stops_renderItems (y :: ys) rest)
    rw [hrest] at hread ⊢
    rcases hread with ⟨hn, hx⟩ | ⟨hn, hx⟩
    · rw [readItems_next hx]
      exact (readItems_render y ys (by omega) depth rest).after hn (x :: ·)
    · exact .inr ⟨fun h => hn h.1, readItems_none hx⟩

theorem readMembers_render : ∀ (k : Utf8Text) (x : Json) (ms : List (Utf8Text × Json)) {fuel : Nat},
    2 * ((renderString k).length + (1 + (x.render.length + (renderMembers ms).length))) ≤ fuel → ∀ (depth : Nat) (rest : Text),
    ReadsAs (NestedMembers depth ((k, x) :: ms)) ((k, x) :: ms) rest
      (readMembers fuel depth (renderString k ++ 0x3A :: (x.render ++ (renderMembers ms ++ rest))))
  | _, _, _, 0, hfuel, _, _ => by
    omega
  | k, x, ms, fuel + 1, hfuel, depth, rest => by
    have hpos := renderMembers_length_pos ms
    have hk : ∀ u : Text, decodeString (escape k.bytes ++ ([0x22] ++ 0x3A :: u)) = some (k, 0x3A :: u) :=
      fun u => decodeString_renderString k _
    have hread := readValue_render x (show _ ≤ fuel by omega) depth (stops_renderMembers ms rest)
    rw [renderString, List.cons_append, List.append_assoc]
    cases ms with
    | nil =>
      rcases hread with ⟨hn, hx⟩ | ⟨hn, hx⟩
      · exact .inl ⟨⟨hn, trivial⟩, readMembers_last (hk _) hx⟩
      · exact .inr ⟨fun h => hn h.1, readMembers_none (hk _) hx⟩
    | cons m ms =>
      obtain ⟨k', y⟩ := m
      have hm : (renderMembers ((k', y) :: ms)).length =
          1 + ((renderString k').length + (1 + (y.render.length + (renderMembers ms).length))) := by
        rw [renderMembers, List.length_cons, List.length_append, List.length_cons, List.length_append]
        omega
      have hrest : renderMembers ((k', y) :: ms) ++ rest =
          0x2C :: (renderString k' ++ 0x3A :: (y.render ++ (renderMembers ms ++ rest))) := by
        rw [renderMembers, List.cons_append, List.append_assoc, List.cons_append, List.append_assoc]
      rw [hrest] at hread ⊢
      rcases hread with ⟨hn, hx⟩ | ⟨hn, hx⟩
      · rw [readMembers_next (hk _) hx]
        exact (readMembers_render k' y ms (by omega) depth rest).after hn ((k, x) :: ·)
      · exact .inr ⟨fun h => hn h.1, readMembers_none (hk _) hx⟩

end

theorem readOnly_render {j : Json} (h : Nested 0 j) : readOnly j.render = some j := by
  have hread := readValue_render j (Nat.le_add_right _ 2) 0 Text.stops_nil
  rw [List.append_nil] at hread
  rw [readOnly, (hread.resolve_right fun hno => hno.1 h).2]
  rfl

/-- Whatever is read first of a document's text is the document, as a map collects it. -/
theorem decodeFirst_normal (j : Json) {rest left : Text} {v : Json} (hstops : Text.Stops rest)
    (h : decodeFirst (j.render ++ rest) = some (v, left)) : v = j.normal ∧ left = rest := by
  have hfuel : 2 * j.render.length ≤ 2 * (j.render ++ rest).length + 2 := by
    rw [List.length_append]
    omega
  rw [decodeFirst] at h
  rcases readValue_render j hfuel 0 hstops with ⟨-, hread⟩ | ⟨-, hread⟩
  · rw [hread] at h
    cases h
    exact ⟨rfl, rfl⟩
  · rw [hread] at h
    cases h

/-! ### Documents in order -/

mutual

/-- A document that may stand under `depth` open arrays and objects, the names of each object in order. -/
def Fits : Nat → Json → Prop
  | _, .null | _, .bool _ | _, .num _ | _, .str _ => True
  | depth, .arr items => depth < maxNesting ∧ FitsItems (depth + 1) items
  | depth, .obj members => depth < maxNesting ∧ Assoc.Ordered members ∧ FitsMembers (depth + 1) members

def FitsItems : Nat → List Json → Prop
  | _, [] => True
  | depth, x :: xs => Fits depth x ∧ FitsItems depth xs

def FitsMembers : Nat → List (Utf8Text × Json) → Prop
  | _, [] => True
  | depth, (_, x) :: ms => Fits depth x ∧ FitsMembers depth ms

end

theorem fitsMembers_iff {depth : Nat} : ∀ {ms : List (Utf8Text × Json)}, FitsMembers depth ms ↔ ∀ m ∈ ms, Fits depth m.2
  | [] => by simp [FitsMembers]
  | (k, x) :: ms => by simp [FitsMembers, fitsMembers_iff]

theorem FitsMembers.set {depth : Nat} {ms : List (Utf8Text × Json)} {k : Utf8Text} {x : Json} (h : FitsMembers depth ms)
    (hx : Fits depth x) : FitsMembers depth (Assoc.set ms k x) := by
  refine fitsMembers_iff.2 fun m hm => ?_
  rcases Assoc.mem_set hm with rfl | hm
  · exact hx
  · exact fitsMembers_iff.1 h m hm

mutual

/-- Whatever is read may stand where it was read. -/
theorem readValue_nested : ∀ {fuel depth : Nat} {t rest : Text} {j : Json}, readValue fuel depth t = some (j, rest) →
    Nested depth j
  | 0, _, _, _, _, h => by cases h
  | fuel + 1, depth, t, rest, j, h => by
    rw [readValue] at h
    split at h
    · cases h
      trivial
    · cases h
      trivial
    · cases h
      trivial
    · obtain ⟨_, -, heq⟩ := Option.map_eq_some_iff.1 h
      cases heq
      trivial
    · split at h
      · rename_i hdepth
        split at h
        · cases h
          exact ⟨hdepth, trivial⟩
        · obtain ⟨_, hitems, heq⟩ := Option.map_eq_some_iff.1 h
          cases heq
          exact ⟨hdepth, readItems_nested hitems⟩
      · cases h
    · split at h
      · rename_i hdepth
        split at h
        · cases h
          exact ⟨hdepth, trivial⟩
        · obtain ⟨_, hmembers, heq⟩ := Option.map_eq_some_iff.1 h
          cases heq
          exact ⟨hdepth, readMembers_nested hmembers⟩
      · cases h
    · unfold decodeNumber at h
      split at h
      · cases h
      · dsimp only at h
        split at h
        · cases h
          trivial
        · cases h

theorem readItems_nested : ∀ {fuel depth : Nat} {t rest : Text} {xs : List Json}, readItems fuel depth t = some (xs, rest) →
    NestedItems depth xs
  | 0, _, _, _, _, h => by cases h
  | fuel + 1, depth, t, rest, xs, h => by
    rw [readItems] at h
    split at h
    · cases h
    · rename_i x _ hx
      have hnested := readValue_nested hx
      split at h
      · cases h
        exact ⟨hnested, trivial⟩
      · obtain ⟨_, hitems, heq⟩ := Option.map_eq_some_iff.1 h
        cases heq
        exact ⟨hnested, readItems_nested hitems⟩
      · cases h

theorem readMembers_nested : ∀ {fuel depth : Nat} {t rest : Text} {ms : List (Utf8Text × Json)},
    readMembers fuel depth t = some (ms, rest) → NestedMembers depth ms
  | 0, _, _, _, _, h => by cases h
  | fuel + 1, depth, t, rest, ms, h => by
    rw [readMembers] at h
    split at h
    · split at h
      · cases h
      · split at h
        · split at h
          · cases h
          · rename_i hx
            have hnested := readValue_nested hx
            split at h
            · cases h
              exact ⟨hnested, trivial⟩
            · obtain ⟨_, hmembers, heq⟩ := Option.map_eq_some_iff.1 h
              cases heq
              exact ⟨hnested, readMembers_nested hmembers⟩
            · cases h
        · cases h
    · cases h

end

mutual

theorem normal_fits : ∀ (j : Json) {depth : Nat}, Nested depth j → Fits depth j.normal
  | .null, _, _ | .bool _, _, _ | .num _, _, _ | .str _, _, _ => trivial
  | .arr items, _, h => ⟨h.1, normalItems_fits items h.2⟩
  | .obj members, _, h => ⟨h.1, normalMembers_fits members h.2 List.Pairwise.nil trivial⟩

theorem normalItems_fits : ∀ (xs : List Json) {depth : Nat}, NestedItems depth xs → FitsItems depth (normalItems xs)
  | [], _, _ => trivial
  | x :: xs, _, h => ⟨normal_fits x h.1, normalItems_fits xs h.2⟩

theorem normalMembers_fits : ∀ (ms : List (Utf8Text × Json)) {depth : Nat} {before : List (Utf8Text × Json)},
    NestedMembers depth ms → Assoc.Ordered before → FitsMembers depth before →
    Assoc.Ordered (normalMembers before ms) ∧ FitsMembers depth (normalMembers before ms)
  | [], _, _, _, hordered, hbefore => ⟨hordered, hbefore⟩
  | (_, x) :: ms, _, _, h, hordered, hbefore => normalMembers_fits ms h.2 hordered.set (hbefore.set (normal_fits x h.1))

end

mutual

/-- A document in order is collected as it is. -/
theorem normal_of_fits : ∀ (j : Json) {depth : Nat}, Fits depth j → Nested depth j ∧ j.normal = j
  | .null, _, _ | .bool _, _, _ | .num _, _, _ | .str _, _, _ => ⟨trivial, rfl⟩
  | .arr items, _, h =>
    have hitems := normalItems_of_fits items h.2
    ⟨⟨h.1, hitems.1⟩, congrArg Json.arr hitems.2⟩
  | .obj members, _, h =>
    have hmembers := normalMembers_of_fits [] members h.2.1 h.2.2
    ⟨⟨h.1, hmembers.1⟩, congrArg Json.obj hmembers.2⟩

theorem normalItems_of_fits : ∀ (xs : List Json) {depth : Nat}, FitsItems depth xs → NestedItems depth xs ∧ normalItems xs = xs
  | [], _, _ => ⟨trivial, rfl⟩
  | x :: xs, _, h =>
    have hx := normal_of_fits x h.1
    have hxs := normalItems_of_fits xs h.2
    ⟨⟨hx.1, hxs.1⟩, congrArg₂ List.cons hx.2 hxs.2⟩

/-- The members come in order, so each is added after those before it. -/
theorem normalMembers_of_fits : ∀ (before ms : List (Utf8Text × Json)) {depth : Nat}, Assoc.Ordered (before ++ ms) →
    FitsMembers depth ms → NestedMembers depth ms ∧ normalMembers before ms = before ++ ms
  | before, [], _, _, _ => ⟨trivial, (List.append_nil before).symm⟩
  | before, (k, x) :: ms, _, hordered, h => by
    obtain ⟨hnested, hx⟩ := normal_of_fits x h.1
    have hset : Assoc.set before k x = before ++ [(k, x)] := by
      refine Assoc.set_of_lt fun m hm => ?_
      exact (List.pairwise_append.1 hordered).2.2 m hm (k, x) (List.mem_cons_self ..)
    rw [List.append_cons] at hordered ⊢
    obtain ⟨hrest, hms⟩ := normalMembers_of_fits (before ++ [(k, x)]) ms hordered h.2
    rw [normalMembers, hx, hset]
    exact ⟨⟨hnested, hrest⟩, hms⟩

end

theorem decode_fits {t : Text} {j : Json} (h : decode t = some j) : Fits 0 j := by
  obtain ⟨_, hfirst, rfl⟩ := Option.map_eq_some_iff.1 h
  obtain ⟨⟨x, rest⟩, hread, rfl⟩ := Option.map_eq_some_iff.1 hfirst
  exact normal_fits x (readValue_nested hread)

theorem decodeFirst_render {j : Json} (h : Fits 0 j) : decodeFirst j.render = some (j, []) := by
  obtain ⟨hnested, hnormal⟩ := normal_of_fits j h
  have hread := readValue_render j (Nat.le_add_right _ 2) 0 Text.stops_nil
  rw [List.append_nil] at hread
  rw [decodeFirst, (hread.resolve_right fun hno => hno.1 hnested).2]
  exact congrArg (fun x => some (x, [])) hnormal

theorem decode_render {j : Json} (h : Fits 0 j) : decode j.render = some j :=
  congrArg (Option.map Prod.fst) (decodeFirst_render h)

end Json

end Effectus

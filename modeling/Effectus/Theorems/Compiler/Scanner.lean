import Effectus.Compiler.Frontend
import Effectus.Theorems.Compiler.Tokens

/-!
The scan for predicates, without its limit on steps: what it does at a byte, at a word and at a quote.
-/

namespace Effectus

namespace Compiler

open Fallible

/-! ### Without a limit on steps -/

theorem startsComment_iff {t : Text} : startsComment t = true ↔ CommentAt t := by
  simp [startsComment, CommentAt]

theorem skipSourceComment_length {b : UInt8} {t : Text} (h : startsComment (b :: t) = true) :
    (skipSourceComment (b :: t)).length ≤ t.length := by
  have hb : b ≠ 0x0A := by
    rcases startsComment_iff.1 h with hstart | hstart <;>
    · rw [(List.cons_prefix_cons.1 hstart).1.symm]
      decide
  rw [skipSourceComment, List.dropWhile_cons_of_pos (by simpa using hb)]
  exact List.length_dropWhile_le ..

theorem skipQuotedSource_length (quote : UInt8) : ∀ t : Text, (skipQuotedSource quote t).length ≤ t.length
  | [] => le_rfl
  | [_] => Nat.zero_le _
  | b :: c :: t => by
    rw [skipQuotedSource]
    split
    · exact (skipQuotedSource_length quote t).trans (by simp only [List.length_cons]; omega)
    split
    · simp
    · exact (skipQuotedSource_length quote (c :: t)).trans (by simp)

theorem skipSourceTrivia_length : ∀ (fuel : Nat) (t : Text), (skipSourceTrivia fuel t).length ≤ t.length
  | 0, _ => le_rfl
  | fuel + 1, [] => le_rfl
  | fuel + 1, b :: t => by
    rw [skipSourceTrivia]
    split
    · exact (skipSourceTrivia_length fuel t).trans (by simp)
    split
    · rename_i hcomment
      exact (skipSourceTrivia_length fuel _).trans ((skipSourceComment_length hcomment).trans (by simp))
    · exact le_rfl

theorem skipSourceTrivia_fuel : ∀ {m n : Nat} {t : Text}, t.length ≤ m → t.length ≤ n →
    skipSourceTrivia m t = skipSourceTrivia n t
  | 0, 0, _, _, _ => rfl
  | 0, n + 1, [], _, _ => rfl
  | m + 1, 0, [], _, _ => rfl
  | m + 1, n + 1, [], _, _ => rfl
  | m + 1, n + 1, b :: t, hm, hn => by
    have hm : t.length ≤ m := Nat.le_of_succ_le_succ hm
    have hn : t.length ≤ n := Nat.le_of_succ_le_succ hn
    rw [skipSourceTrivia, skipSourceTrivia]
    rw [skipSourceTrivia_fuel hm hn]
    split
    · rfl
    split
    · rename_i hcomment
      have hlength := skipSourceComment_length hcomment
      exact skipSourceTrivia_fuel (hlength.trans hm) (hlength.trans hn)
    · rfl

/-- Blanks and comments. -/
def trivia (t : Text) : Text := skipSourceTrivia t.length t

theorem trivia_cons (b : UInt8) (t : Text) : trivia (b :: t) =
    if b = 0x20 ∨ b = 0x09 ∨ b = 0x0D ∨ b = 0x0A then trivia t
    else if startsComment (b :: t) then trivia (skipSourceComment (b :: t)) else b :: t := by
  rw [trivia, List.length_cons, skipSourceTrivia]
  split
  · rfl
  split
  · rename_i hcomment
    exact skipSourceTrivia_fuel (skipSourceComment_length hcomment) le_rfl
  · rfl

theorem closeBraces_length : ∀ {fuel depth : Nat} {t after : Text}, closeBraces fuel depth t = some after →
    after.length < t.length
  | fuel + 1, depth, b :: t, after, h => by
    have hlt : ∀ {u : Text}, after.length < u.length → u.length ≤ t.length → after.length < (b :: t).length :=
      fun h h' => (h.trans_le h').trans (Nat.lt_succ_self _)
    rw [closeBraces] at h
    split at h
    · exact hlt (closeBraces_length h) (skipQuotedSource_length ..)
    split at h
    · rename_i hcomment
      exact hlt (closeBraces_length h) (skipSourceComment_length hcomment)
    split at h
    · exact hlt (closeBraces_length h) le_rfl
    split at h
    · split at h
      · cases h
        exact Nat.lt_succ_self _
      · exact hlt (closeBraces_length h) le_rfl
    · exact hlt (closeBraces_length h) le_rfl

theorem closeBraces_fuel : ∀ {m n depth : Nat} {t : Text}, t.length < m → t.length < n →
    closeBraces m depth t = closeBraces n depth t
  | m + 1, n + 1, depth, [], _, _ => rfl
  | m + 1, n + 1, depth, b :: t, hm, hn => by
    have hm : t.length < m := Nat.lt_of_succ_lt_succ hm
    have hn : t.length < n := Nat.lt_of_succ_lt_succ hn
    have hrest : ∀ (depth : Nat) {u : Text}, u.length ≤ t.length → closeBraces m depth u = closeBraces n depth u :=
      fun _ _ h => closeBraces_fuel (h.trans_lt hm) (h.trans_lt hn)
    rw [closeBraces, closeBraces]
    rw [hrest _ (skipQuotedSource_length b t), hrest (depth + 1) (le_refl t.length), hrest (depth - 1) (le_refl t.length),
      hrest depth (le_refl t.length)]
    split
    · rfl
    split
    · rename_i hcomment
      exact hrest _ (skipSourceComment_length hcomment)
    · rfl

/-- What follows the brace that closes one. -/
def close (t : Text) : Option Text := closeBraces (t.length + 1) 1 t

theorem close_nil : close [] = none := rfl

theorem close_cons (b : UInt8) (t : Text) : close (b :: t) =
    if isQuote b then close (skipQuotedSource b t)
    else if startsComment (b :: t) then close (skipSourceComment (b :: t))
    else if b = 0x7B then closeBraces (t.length + 1) 2 t
    else if b = 0x7D then some t
    else close t := by
  rw [close, List.length_cons, closeBraces]
  split
  · exact closeBraces_fuel ((skipQuotedSource_length b t).trans_lt (Nat.lt_succ_self _)) (Nat.lt_succ_self _)
  split
  · rename_i hcomment
    exact closeBraces_fuel ((skipSourceComment_length hcomment).trans_lt (Nat.lt_succ_self _)) (Nat.lt_succ_self _)
  · rfl

theorem extractFrom_fuel : ∀ {m n : Nat} {t : Text}, t.length < m → t.length < n → extractFrom m t = extractFrom n t
  | m + 1, n + 1, [], _, _ => rfl
  | m + 1, n + 1, b :: t, hm, hn => by
    have hm : t.length < m := Nat.lt_of_succ_lt_succ hm
    have hn : t.length < n := Nat.lt_of_succ_lt_succ hn
    have hrest : ∀ {u : Text}, u.length ≤ t.length → extractFrom m u = extractFrom n u :=
      fun h => extractFrom_fuel (h.trans_lt hm) (h.trans_lt hn)
    rw [extractFrom, extractFrom]
    rw [hrest (skipQuotedSource_length b t), hrest (u := t) le_rfl]
    split
    · rfl
    split
    · rename_i hcomment
      exact hrest (skipSourceComment_length hcomment)
    split
    · rfl
    rename_i hword
    have hpart : isWordPart b = true := by simp [isWordPart, Bool.eq_true_of_not_eq_false hword]
    have hlength : ((b :: t).dropWhile isWordPart).length ≤ t.length := by
      rw [List.dropWhile_cons_of_pos hpart]
      exact List.length_dropWhile_le ..
    split
    · exact hrest hlength
    dsimp only
    split
    · rename_i body hbody
      split
      · rfl
      · rename_i after hafter
        have hbodyLength := skipSourceTrivia_length ((b :: t).dropWhile isWordPart).length ((b :: t).dropWhile isWordPart)
        rw [hbody, List.length_cons] at hbodyLength
        rw [hrest (by have := closeBraces_length hafter; omega)]
    · exact hrest hlength

theorem extract_nil : extractWhenBlocks [] = .ok [] := rfl

/-- Outside words. -/
theorem extract_cons {b : UInt8} {t : Text} (hword : isWordStart b = false) : extractWhenBlocks (b :: t) =
    if isQuote b then extractWhenBlocks (skipQuotedSource b t)
    else if startsComment (b :: t) then extractWhenBlocks (skipSourceComment (b :: t))
    else extractWhenBlocks t := by
  rw [extractWhenBlocks, List.length_cons, extractFrom]
  rw [if_pos hword]
  split
  · exact extractFrom_fuel ((skipQuotedSource_length b t).trans_lt (Nat.lt_succ_self _)) (Nat.lt_succ_self _)
  split
  · rename_i hcomment
    exact extractFrom_fuel ((skipSourceComment_length hcomment).trans_lt (Nat.lt_succ_self _)) (Nat.lt_succ_self _)
  · rfl

theorem isWordStart_code : ∀ b : UInt8, isWordStart b = true → isQuote b = false ∧ b ≠ 0x2F ∧ b ≠ 0x23 := by
  grind [isWordStart, isQuote]

theorem startsComment_cons {b : UInt8} (t : Text) (hslash : b ≠ 0x2F) (hhash : b ≠ 0x23) :
    startsComment (b :: t) = false := by
  rw [startsComment, List.isPrefixOf_cons_cons, List.isPrefixOf_cons_cons, beq_false_of_ne hslash.symm,
    beq_false_of_ne hhash.symm]
  rfl

/-- At a word. -/
theorem extractFrom_scan {t name rest : Text} (scan : scanIdent t = some (name, rest)) (fuel : Nat) :
    extractFrom (fuel + 1) t =
      if name ≠ ("when" : Text) then extractFrom fuel rest
      else
        match trivia rest with
        | 0x7B :: body =>
          match close body with
          | none => .error (.new "unterminated when block")
          | some after => do
            let others ← extractFrom fuel after
            return body.take (body.length - after.length - 1) :: others
        | _ => extractFrom fuel rest := by
  obtain ⟨⟨b, w, rfl, hb⟩, rfl, htake, hdrop⟩ := scanIdent_some scan
  obtain ⟨hquote, hslash, hhash⟩ := isWordStart_code b hb
  rw [List.cons_append] at htake hdrop ⊢
  rw [extractFrom, if_neg (by simp [hquote]), if_neg (by simp [startsComment_cons _ hslash hhash]),
    if_neg (by simp [hb]), htake, hdrop]
  rfl

/-- A word with no predicate after it. -/
theorem extract_word {t name rest : Text} (scan : scanIdent t = some (name, rest))
    (h : name = ("when" : Text) → ∀ body, trivia rest ≠ 0x7B :: body) :
    extractWhenBlocks t = extractWhenBlocks rest := by
  obtain ⟨⟨b, w, rfl, hb⟩, rfl, -, -⟩ := scanIdent_some scan
  have hfuel : extractFrom (b :: w ++ rest).length rest = extractWhenBlocks rest :=
    extractFrom_fuel (by simp only [List.length_append, List.length_cons]; omega) (Nat.lt_succ_self _)
  rw [extractWhenBlocks, extractFrom_scan scan, hfuel]
  split
  · rfl
  rename_i hname
  split
  · rename_i body hbody
    exact absurd hbody (h (not_not.1 hname) body)
  · rfl

/-- The word with a brace after it. -/
theorem extract_block {t rest body : Text} (scan : scanIdent t = some (("when" : Text), rest))
    (hbody : trivia rest = 0x7B :: body) : extractWhenBlocks t =
      match close body with
      | none => .error (.new "unterminated when block")
      | some after => do
        let others ← extractWhenBlocks after
        return body.take (body.length - after.length - 1) :: others := by
  obtain ⟨-, ht, -, -⟩ := scanIdent_some scan
  rw [extractWhenBlocks, extractFrom_scan scan, if_neg (not_not.2 rfl)]
  split
  · rename_i body' hbody'
    cases hbody.symm.trans hbody'
    cases hafter : close body with
    | none => rfl
    | some after =>
      have hlength := skipSourceTrivia_length rest.length rest
      rw [show skipSourceTrivia rest.length rest = 0x7B :: body from hbody, List.length_cons] at hlength
      have hafterLength := closeBraces_length hafter
      have hfuel : extractFrom t.length after = extractWhenBlocks after :=
        extractFrom_fuel (by rw [ht, List.length_append]; omega) (Nat.lt_succ_self _)
      simp only [hfuel]
  · rename_i hclosed
    exact (hclosed body hbody).elim

/-! ### Strings -/

/-- A text in quotes ends where the lexer says, or it does not end at all: the lexer may give up an escape for a string
to end, the scan never does. -/
theorem skipQuotedSource_of_closing {quote : UInt8} (hslash : quote ≠ 0x5C) (hline : quote ≠ 0x0A) : ∀ t : Text,
    (closing quote t = none → skipQuotedSource quote t = []) ∧
    ∀ body rest, closing quote t = some (body, rest) → skipQuotedSource quote t = rest ∨ skipQuotedSource quote t = []
  | [] => ⟨fun _ => rfl, by rintro _ _ ⟨⟩⟩
  | [b] => ⟨fun _ => rfl, fun _ _ _ => .inr rfl⟩
  | b :: c :: t => by
    -- After a backslash at the end of a line the lexer reads on from the line's end, which is no quote.
    have hcontinued : c = 0x0A → closing quote (c :: t) = (closing quote t).map fun x => (c :: x.1, x.2) := by
      rintro rfl
      cases t with
      | nil => simp [closing, hline.symm]
      | cons d t =>
        rw [closing, if_neg hline.symm]
        simp only [show ¬((0x0A : UInt8) = 0x5C ∧ d ≠ 0x0A) from fun h => absurd h.1 (by decide), if_false]
        cases closing quote (d :: t) <;> rfl
    obtain ⟨hnone, hsome⟩ := skipQuotedSource_of_closing hslash hline t
    obtain ⟨hnone', hsome'⟩ := skipQuotedSource_of_closing hslash hline (c :: t)
    by_cases hquote : b = quote
    · subst hquote
      simp [closing, skipQuotedSource, hslash]
    by_cases hescape : b = 0x5C
    · subst hescape
      by_cases hc : c = 0x0A
      · simp only [closing, skipQuotedSource, hquote, hc, ne_eq, not_true_eq_false, and_false, if_false, if_true]
        rw [← hc, hcontinued hc]
        cases hclosing : closing quote t with
        | none => exact ⟨fun _ => hnone hclosing, by rintro _ _ ⟨⟩⟩
        | some found =>
          refine ⟨by rintro ⟨⟩, ?_⟩
          rintro _ _ ⟨⟩
          exact hsome _ _ hclosing
      · simp only [closing, skipQuotedSource, hquote, hc, ne_eq, not_false_eq_true, and_self, if_false, if_true]
        cases hclosing : closing quote t with
        | none => exact ⟨fun _ => hnone hclosing, fun _ _ _ => .inr (hnone hclosing)⟩
        | some found =>
          refine ⟨by rintro ⟨⟩, ?_⟩
          rintro _ _ ⟨⟩
          exact hsome _ _ hclosing
    · simp only [closing, skipQuotedSource, hquote, hescape, false_and, if_false]
      cases hclosing : closing quote (c :: t) with
      | none => exact ⟨fun _ => hnone' hclosing, by rintro _ _ ⟨⟩⟩
      | some found =>
        refine ⟨by rintro ⟨⟩, ?_⟩
        rintro _ _ ⟨⟩
        exact hsome' _ _ hclosing

/-! ### Plain bytes -/

/-- A byte a string or a comment may start with. -/
def isMark (b : UInt8) : Bool := isQuote b || b == 0x2F || b == 0x23

theorem startsComment_of_plain {b : UInt8} (t : Text) (h : isMark b = false) : startsComment (b :: t) = false := by
  simp only [isMark, Bool.or_eq_false_iff, beq_eq_false_iff_ne] at h
  exact startsComment_cons t h.1.2 h.2

theorem isQuote_of_plain {b : UInt8} (h : isMark b = false) : isQuote b = false := by
  simp only [isMark, Bool.or_eq_false_iff] at h
  exact h.1.1

theorem extract_plain {r : Text} : ∀ {w : Text}, (∀ b ∈ w, isMark b = false ∧ isWordStart b = false) →
    extractWhenBlocks (w ++ r) = extractWhenBlocks r
  | [], _ => rfl
  | b :: w, h => by
    obtain ⟨⟨hmark, hword⟩, hrest⟩ := List.forall_mem_cons.1 h
    rw [List.cons_append, extract_cons hword, if_neg (by simp [isQuote_of_plain hmark]),
      if_neg (by simp [startsComment_of_plain _ hmark]), extract_plain hrest]

theorem close_plain {r : Text} : ∀ {w : Text}, (∀ b ∈ w, isMark b = false ∧ b ≠ 0x7B ∧ b ≠ 0x7D) →
    close (w ++ r) = close r
  | [], _ => rfl
  | b :: w, h => by
    obtain ⟨⟨hmark, hopen, hclose⟩, hrest⟩ := List.forall_mem_cons.1 h
    rw [List.cons_append, close_cons, if_neg (by simp [isQuote_of_plain hmark]),
      if_neg (by simp [startsComment_of_plain _ hmark]), if_neg hopen, if_neg hclose, close_plain hrest]

theorem isDigit_plain : ∀ b : UInt8, Text.isDigit b = true →
    (isMark b = false ∧ isWordStart b = false) ∧ isMark b = false ∧ b ≠ 0x7B ∧ b ≠ 0x7D := by
  grind [Text.isDigit, isMark, isQuote, isWordStart]

theorem isBlank_plain : ∀ b : UInt8, isBlank b = true →
    (isMark b = false ∧ isWordStart b = false) ∧ isMark b = false ∧ b ≠ 0x7B ∧ b ≠ 0x7D := by
  grind [isBlank, isMark, isQuote, isWordStart]

theorem isWordPart_plain : ∀ b : UInt8, isWordPart b = true → isMark b = false ∧ b ≠ 0x7B ∧ b ≠ 0x7D := by
  grind [isWordPart, Text.isDigit, isMark, isQuote, isWordStart]

end Compiler

end Effectus

import Effectus.Compiler.Lexer
import Mathlib.Data.List.Pairwise

/-!
What the lexer makes of a source: tokens that follow one another without a gap, each at its own position, and what the
text of a token of each kind looks like.
-/

namespace Effectus

namespace Compiler

variable {t rest : Text} {lexeme : Lexeme}

/-! ### The text of one token -/

theorem lexComment_some (h : lexComment t = some (lexeme, rest)) :
    (([0x2F, 0x2F] : Text) <+: t ∨ ([0x23] : Text) <+: t) ∧ lexeme = .word .comment (t.takeWhile (· ≠ 0x0A)) ∧
      rest = t.dropWhile (· ≠ 0x0A) := by
  unfold lexComment at h
  split at h
  · rename_i hstart
    cases h
    exact ⟨by simpa using hstart, rfl, rfl⟩
  · cases h

theorem lexComment_none (h : lexComment t = none) : ¬(([0x2F, 0x2F] : Text) <+: t ∨ ([0x23] : Text) <+: t) := by
  unfold lexComment at h
  split at h
  · cases h
  · rename_i hstart
    simpa using hstart

theorem lexWhitespace_some (h : lexWhitespace t = some (lexeme, rest)) :
    ∃ w, w ≠ [] ∧ (∀ b ∈ w, isBlank b = true) ∧ lexeme = .word .whitespace w ∧ t = w ++ rest := by
  unfold lexWhitespace at h
  split at h
  · cases h
  · rename_i hne
    cases h
    exact ⟨_, by simpa using hne, fun b hb => List.mem_takeWhile_imp hb, rfl, (List.takeWhile_append_dropWhile ..).symm⟩

theorem scanNumeral_some {n : Numeral} (h : scanNumeral t = some (n, rest)) : t = n.digits ++ rest := by
  unfold scanNumeral at h
  split at h
  · cases h
    exact (List.takeWhile_append_dropWhile ..).symm
  · cases h

theorem lexFloat_some (h : lexFloat t = some (lexeme, rest)) :
    ∃ whole fraction : Numeral, lexeme = .float whole fraction ∧ t = whole.digits ++ 0x2E :: fraction.digits ++ rest := by
  unfold lexFloat at h
  split at h
  · rename_i whole after hwhole
    obtain ⟨⟨fraction, rest'⟩, hfraction, heq⟩ := Option.map_eq_some_iff.1 h
    cases heq
    refine ⟨whole, fraction, rfl, ?_⟩
    rw [scanNumeral_some hwhole, scanNumeral_some hfraction, List.append_assoc, List.cons_append]
  · cases h

theorem lexInt_some (h : lexInt t = some (lexeme, rest)) :
    ∃ n : Numeral, lexeme = .int n ∧ t = n.digits ++ rest := by
  obtain ⟨⟨n, rest'⟩, hn, heq⟩ := Option.map_eq_some_iff.1 h
  cases heq
  exact ⟨n, rfl, scanNumeral_some hn⟩

theorem closing_text {quote : UInt8} : ∀ {t body rest : Text}, closing quote t = some (body, rest) →
    t = body ++ quote :: rest
  | [], _, _, h => by cases h
  | [b], body, rest, h => by
    rw [closing] at h
    split at h
    · rename_i hb
      cases h
      rw [hb]
      rfl
    · cases h
  | b :: c :: t, body, rest, h => by
    rw [closing] at h
    split at h
    · rename_i hb
      cases h
      rw [hb]
      rfl
    split at h
    · rename_i found hfound
      cases h
      split at hfound
      · rw [closing_text hfound]
        rfl
      · cases hfound
    · split at h
      · rename_i found hfound
        cases h
        rw [closing_text hfound]
        rfl
      · cases h

theorem lexQuoted_some {quote : Quote} (h : lexQuoted quote t = some (lexeme, rest)) :
    ∃ s : Quoted, lexeme = .string s ∧ t = s.text ++ rest ∧ closing s.quote.byte t.tail = some (s.body, rest) := by
  cases t with
  | nil => cases h
  | cons b t =>
    rw [lexQuoted] at h
    split at h
    · rename_i hb
      split at h
      · rename_i found rest' hfound
        cases h
        refine ⟨⟨quote, found, closing_body hfound⟩, rfl, ?_, hfound⟩
        show b :: t = quote.byte :: found ++ [quote.byte] ++ rest
        rw [hb, closing_text hfound]
        simp
      · cases h
    · cases h

theorem lexString_some (h : lexString t = some (lexeme, rest)) :
    ∃ s : Quoted, lexeme = .string s ∧ t = s.text ++ rest ∧ closing s.quote.byte t.tail = some (s.body, rest) := by
  rcases Option.or_eq_some_iff.1 h with h | ⟨-, h⟩
  · exact lexQuoted_some h
  · exact lexQuoted_some h

theorem lexWord_some {kind : WordKind} {words : List Text} (h : lexWord kind words t = some (lexeme, rest)) :
    ∃ w ∈ words, lexeme = .word kind w ∧ t = w ++ rest := by
  obtain ⟨w, hw, heq⟩ := Option.map_eq_some_iff.1 h
  cases heq
  obtain ⟨more, rfl⟩ : w <+: t := by simpa using List.find?_some hw
  exact ⟨w, List.mem_of_find?_eq_some hw, rfl, by simp⟩

/-- An identifier takes all bytes a word may go on with. -/
theorem scanIdent_some {name : Text} (h : scanIdent t = some (name, rest)) :
    (∃ b w, name = b :: w ∧ isWordStart b = true) ∧ t = name ++ rest ∧ t.takeWhile isWordPart = name ∧
      t.dropWhile isWordPart = rest := by
  cases t with
  | nil => cases h
  | cons b t =>
    rw [scanIdent] at h
    split at h
    · rename_i hb
      cases h
      have hpart : isWordPart b = true := by simp [isWordPart, hb]
      refine ⟨⟨b, _, rfl, hb⟩, ?_, ?_, ?_⟩
      · rw [List.cons_append, List.takeWhile_append_dropWhile]
      · rw [List.takeWhile_cons_of_pos hpart]
      · rw [List.dropWhile_cons_of_pos hpart]
    · cases h

theorem lexVarRef_some (h : lexVarRef t = some (lexeme, rest)) :
    ∃ name, lexeme = .word .varRef (0x24 :: name) ∧ t = 0x24 :: name ++ rest ∧
      scanIdent (name ++ rest) = some (name, rest) := by
  unfold lexVarRef at h
  split at h
  · rename_i t
    obtain ⟨⟨name, rest'⟩, hname, heq⟩ := Option.map_eq_some_iff.1 h
    cases heq
    have htext := (scanIdent_some hname).2.1
    exact ⟨name, rfl, by rw [htext]; rfl, by rw [← htext]; exact hname⟩
  · cases h

theorem lexIdent_some (h : lexIdent t = some (lexeme, rest)) :
    ∃ name, lexeme = .word .ident name ∧ scanIdent t = some (name, rest) := by
  obtain ⟨⟨name, rest'⟩, hname, heq⟩ := Option.map_eq_some_iff.1 h
  cases heq
  exact ⟨name, rfl, hname⟩

/-- The selectors of a path, one after another. -/
inductive Selects : Text → Text → Text → Prop
  | nil (rest : Text) : Selects rest [] rest
  | field {t name more rest : Text} : scanIdent t = some (name, more) → ∀ {selectors}, Selects more selectors rest →
      Selects (0x2E :: t) (0x2E :: name ++ selectors) rest
  | index {t : Text} {n : Numeral} {more rest : Text} : t = n.digits ++ 0x5D :: more → ∀ {selectors},
      Selects more selectors rest → Selects (0x5B :: t) (0x5B :: n.digits ++ 0x5D :: selectors) rest

theorem Selects.text {selectors : Text} (h : Selects t selectors rest) : t = selectors ++ rest := by
  induction h with
  | nil => rfl
  | field hname _ ih => rw [(scanIdent_some hname).2.1, ih, List.append_assoc, List.cons_append]
  | index ht _ ih => rw [ht, ih]; simp

theorem scanSelectors_selects : ∀ (fuel : Nat) (t : Text), Selects t (scanSelectors fuel t).1 (scanSelectors fuel t).2
  | 0, t => .nil t
  | fuel + 1, t => by
    rw [scanSelectors]
    split
    · exact .nil t
    · rename_i selector more hselector
      have ih := scanSelectors_selects fuel more
      unfold scanSelector at hselector
      split at hselector
      · obtain ⟨⟨name, more'⟩, hname, heq⟩ := Option.map_eq_some_iff.1 hselector
        cases heq
        exact .field hname ih
      · split at hselector
        · rename_i n more' hn
          cases hselector
          have := Selects.index (scanNumeral_some hn) ih
          simpa using this
        · cases hselector
      · cases hselector

theorem lexFactPath_some (h : lexFactPath t = some (lexeme, rest)) :
    ∃ name selectors more, lexeme = .word .factPath (name ++ selectors) ∧ selectors ≠ [] ∧
      scanIdent t = some (name, more) ∧ Selects more selectors rest := by
  unfold lexFactPath at h
  split at h
  · cases h
  rename_i name more hname
  have hselects := scanSelectors_selects more.length more
  split at h
  · cases h
  · rename_i selectors rest' hne hscan
    cases h
    rw [hscan] at hselects
    exact ⟨name, selectors, more, rfl, hne, hname, hselects⟩

/-! ### The token at the front -/

/-- A comment starts here. -/
def CommentAt (t : Text) : Prop := ([0x2F, 0x2F] : Text) <+: t ∨ ([0x23] : Text) <+: t

/-- The operators, punctuation marks and braces. -/
def signs : List (WordKind × Text) :=
  (["&&", "||", "!"] : List Text).map (.logicalOp, ·) ++ (["->"] : List Text).map (.arrow, ·) ++
    (["==", "!=", ">=", "<=", ">", "<", "+", "-", "*", "/", "%"] : List Text).map (.operator, ·) ++
    (["(", ")", ",", "[", "]", ".", ":", "?", "="] : List Text).map (.punct, ·) ++
    ([[0x7B], [0x7D]] : List Text).map (.braces, ·)

/-- What can be at the front of a source, by its kind. -/
inductive Front (t : Text) : Lexeme → Text → Prop
  | comment (starts : CommentAt t) : Front t (.word .comment (t.takeWhile (· ≠ 0x0A))) (t.dropWhile (· ≠ 0x0A))
  | blanks {w rest : Text} (nonempty : w ≠ []) (blank : ∀ b ∈ w, isBlank b = true) (text : t = w ++ rest) :
      Front t (.word .whitespace w) rest
  | float {whole fraction : Numeral} {rest : Text} (text : t = whole.digits ++ 0x2E :: fraction.digits ++ rest) :
      Front t (.float whole fraction) rest
  | int {n : Numeral} {rest : Text} (text : t = n.digits ++ rest) : Front t (.int n) rest
  | string {s : Quoted} {rest : Text} (text : t = s.text ++ rest)
      (closes : closing s.quote.byte t.tail = some (s.body, rest)) : Front t (.string s) rest
  | sign {kind : WordKind} {w rest : Text} (mem : (kind, w) ∈ signs) (text : t = w ++ rest) (code : ¬CommentAt t) :
      Front t (.word kind w) rest
  | varRef {name rest : Text} (text : t = 0x24 :: name ++ rest) (scan : scanIdent (name ++ rest) = some (name, rest)) :
      Front t (.word .varRef (0x24 :: name)) rest
  | factPath {name selectors more rest : Text} (nonempty : selectors ≠ []) (scan : scanIdent t = some (name, more))
      (selects : Selects more selectors rest) : Front t (.word .factPath (name ++ selectors)) rest
  | ident {name rest : Text} (scan : scanIdent t = some (name, rest)) : Front t (.word .ident name) rest

theorem front_sign {kind : WordKind} {words : List Text} (hsigns : ∀ w ∈ words, (kind, w) ∈ signs)
    (h : lexWord kind words t = some (lexeme, rest)) (hcode : ¬CommentAt t) : Front t lexeme rest := by
  obtain ⟨w, hw, rfl, ht⟩ := lexWord_some h
  exact .sign (hsigns w hw) ht hcode

theorem front_of_lex (h : lexRules.findSome? (· t) = some (lexeme, rest)) : Front t lexeme rest := by
  rw [lexRules, List.findSome?_cons] at h
  cases hcomment : lexComment t with
  | some found =>
    rw [hcomment] at h
    cases h
    obtain ⟨hstart, rfl, rfl⟩ := lexComment_some hcomment
    exact .comment hstart
  | none =>
    rw [hcomment] at h
    have hcode : ¬CommentAt t := lexComment_none hcomment
    obtain ⟨rule, hmem, hrule⟩ := List.exists_of_findSome?_eq_some h
    simp only [List.mem_cons, List.not_mem_nil, or_false] at hmem
    rcases hmem with rfl | rfl | rfl | rfl | rfl | rfl | rfl | rfl | rfl | rfl | rfl | rfl
    · obtain ⟨w, hne, hblank, rfl, ht⟩ := lexWhitespace_some hrule
      exact .blanks hne hblank ht
    · obtain ⟨whole, fraction, rfl, ht⟩ := lexFloat_some hrule
      exact .float ht
    · obtain ⟨n, rfl, ht⟩ := lexInt_some hrule
      exact .int ht
    · obtain ⟨s, rfl, ht, hcloses⟩ := lexString_some hrule
      exact .string ht hcloses
    · exact front_sign (by decide) hrule hcode
    · exact front_sign (by decide) hrule hcode
    · exact front_sign (by decide) hrule hcode
    · obtain ⟨name, rfl, ht, hscan⟩ := lexVarRef_some hrule
      exact .varRef ht hscan
    · obtain ⟨name, selectors, more, rfl, hne, hscan, hselects⟩ := lexFactPath_some hrule
      exact .factPath hne hscan hselects
    · obtain ⟨name, rfl, hscan⟩ := lexIdent_some hrule
      exact .ident hscan
    · exact front_sign (by decide) hrule hcode
    · exact front_sign (by decide) hrule hcode

/-- The text of a token is what was taken. -/
theorem Front.append (h : Front t lexeme rest) : t = lexeme.text ++ rest := by
  cases h with
  | comment => exact (List.takeWhile_append_dropWhile ..).symm
  | blanks _ _ text | float text | int text | string text | sign _ text | varRef text => exact text
  | factPath _ scan selects => rw [(scanIdent_some scan).2.1, selects.text, Lexeme.text, List.append_assoc]
  | ident scan => exact (scanIdent_some scan).2.1

theorem isWordStart_lt : ∀ b : UInt8, isWordStart b = true → b < 0x80 := by grind [isWordStart]

theorem isDigit_lt : ∀ b : UInt8, Text.isDigit b = true → b < 0x80 := by grind [Text.isDigit]

theorem isBlank_lt : ∀ b : UInt8, isBlank b = true → b < 0x80 := by grind [isBlank]

/-- A token starts with a byte of its own rune. -/
theorem Front.head (h : Front t lexeme rest) : ∃ b w, lexeme.text = b :: w ∧ b < 0x80 := by
  cases h with
  | comment starts =>
    rcases starts with ⟨more, rfl⟩ | ⟨more, rfl⟩
    · exact ⟨0x2F, _, rfl, by decide⟩
    · exact ⟨0x23, _, rfl, by decide⟩
  | @blanks w _ nonempty blank =>
    obtain ⟨b, w, rfl⟩ := List.exists_cons_of_ne_nil nonempty
    exact ⟨b, w, rfl, isBlank_lt b (blank b (List.mem_cons_self ..))⟩
  | @float whole fraction =>
    obtain ⟨b, w, hdigits⟩ := List.exists_cons_of_ne_nil whole.nonempty
    refine ⟨b, w ++ 0x2E :: fraction.digits, by rw [Lexeme.text, hdigits]; rfl, isDigit_lt b (whole.isDigits b ?_)⟩
    rw [hdigits]
    exact List.mem_cons_self ..
  | @int n =>
    obtain ⟨b, w, hdigits⟩ := List.exists_cons_of_ne_nil n.nonempty
    refine ⟨b, w, hdigits, isDigit_lt b (n.isDigits b ?_)⟩
    rw [hdigits]
    exact List.mem_cons_self ..
  | @string s => exact ⟨s.quote.byte, s.body ++ [s.quote.byte], rfl, by cases s.quote <;> decide⟩
  | @sign kind w _ mem =>
    have : ∀ x ∈ signs, ∃ b ∈ x.2.head?, b < 0x80 := by decide
    obtain ⟨b, hb, hlt⟩ := this _ mem
    obtain ⟨w', rfl⟩ := List.head?_eq_some_iff.1 hb
    exact ⟨b, w', rfl, hlt⟩
  | varRef => exact ⟨0x24, _, rfl, by decide⟩
  | factPath _ scan =>
    obtain ⟨⟨b, w, rfl, hb⟩, -⟩ := scanIdent_some scan
    exact ⟨b, _, rfl, isWordStart_lt b hb⟩
  | ident scan =>
    obtain ⟨⟨b, w, rfl, hb⟩, -⟩ := scanIdent_some scan
    exact ⟨b, w, rfl, isWordStart_lt b hb⟩

/-! ### All tokens -/

/-- The tokens of a text that starts at a position. -/
inductive Lexes : Position → Text → List Token → Prop
  | nil (pos : Position) : Lexes pos [] []
  | cons {pos : Position} {t rest : Text} {lexeme : Lexeme} {tokens : List Token} (front : Front t lexeme rest)
      (more : Lexes (pos.advance lexeme.text) rest tokens) : Lexes pos t (⟨lexeme, pos⟩ :: tokens)

theorem lexes_of_lexFrom : ∀ {fuel : Nat} {pos : Position} {t : Text} {tokens : List Token},
    lexFrom fuel pos t = some tokens → Lexes pos t tokens
  | fuel, pos, [], tokens, h => by
    cases fuel <;> cases h <;> exact .nil pos
  | 0, pos, b :: t, tokens, h => by cases h
  | fuel + 1, pos, b :: t, tokens, h => by
    rw [lexFrom] at h
    · split at h
      · cases h
      · rename_i lexeme rest hlex
        obtain ⟨others, hothers, rfl⟩ := Option.map_eq_some_iff.1 h
        exact .cons (front_of_lex hlex) (lexes_of_lexFrom hothers)
    · exact nofun

/-- A source that is lexed, and which of its tokens the parser reads. -/
theorem lexes_of_lex {source : Text} {tokens : List Token} (h : lex source = some tokens) :
    ∃ all, Lexes ⟨0, 1, 1⟩ source all ∧ tokens = all.filter fun token => !token.isElided := by
  obtain ⟨all, hall, rfl⟩ := Option.map_eq_some_iff.1 h
  exact ⟨all, lexes_of_lexFrom hall, rfl⟩

/-! ### Positions -/

theorem Position.advance_offset : ∀ (t : Text) (pos : Position), (pos.advance t).offset = pos.offset + t.length
  | [], pos => rfl
  | b :: t, pos => by
    rw [Position.advance]
    split
    · rw [Position.advance_offset t]
      simp only [List.length_cons]
      omega
    split
    · rw [Position.advance_offset t]
      simp only [List.length_cons]
      omega
    · rw [Position.advance_offset t]
      simp only [List.length_cons]
      omega

/-- Line by line, and by column in a line. -/
def Position.Before (a b : Position) : Prop := a.line < b.line ∨ a.line = b.line ∧ a.column < b.column

theorem Position.advance_not_before : ∀ (t : Text) (pos : Position), ¬(pos.advance t).Before pos
  | [], pos => by simp [Position.advance, Position.Before]
  | b :: t, pos => by
    rw [Position.advance]
    split
    · have := Position.advance_not_before t ⟨pos.offset + 1, pos.line + 1, 1⟩
      simp only [Position.Before] at *
      omega
    split
    · have := Position.advance_not_before t ⟨pos.offset + 1, pos.line, pos.column⟩
      simp only [Position.Before] at *
      omega
    · have := Position.advance_not_before t ⟨pos.offset + 1, pos.line, pos.column + 1⟩
      simp only [Position.Before] at *
      omega

theorem Position.before_advance {b : UInt8} (hb : b < 0x80) (t : Text) (pos : Position) :
    pos.Before (pos.advance (b :: t)) := by
  have hstart : ¬((0x80 ≤ b && b ≤ 0xBF) = true) := by
    simp only [Bool.and_eq_true, decide_eq_true_eq, not_and]
    exact fun h => absurd hb (UInt8.not_lt.2 h)
  rw [Position.advance]
  split
  · have := Position.advance_not_before t ⟨pos.offset + 1, pos.line + 1, 1⟩
    simp only [Position.Before] at *
    omega
  · have := Position.advance_not_before t ⟨pos.offset + 1, pos.line, pos.column + 1⟩
    simp only [Position.Before] at *
    omega

/-- Tokens come in the order of their positions. -/
theorem Lexes.pairwise {pos : Position} {tokens : List Token} (h : Lexes pos t tokens) :
    (∀ token ∈ tokens, ¬token.pos.Before pos) ∧ tokens.Pairwise fun a b => a.pos.Before b.pos := by
  induction h with
  | nil => exact ⟨nofun, .nil⟩
  | @cons pos t rest lexeme tokens front more ih =>
    obtain ⟨b, w, htext, hb⟩ := front.head
    have hafter : pos.Before (pos.advance lexeme.text) := htext ▸ Position.before_advance hb w pos
    have hbefore : ∀ token ∈ tokens, pos.Before token.pos := by
      intro token hm
      have := ih.1 token hm
      unfold Position.Before at *
      omega
    refine ⟨fun token hm => ?_, .cons hbefore ih.2⟩
    rcases List.mem_cons.1 hm with rfl | hm
    · simp [Position.Before]
    · have := hbefore token hm
      unfold Position.Before at *
      omega

end Compiler

end Effectus

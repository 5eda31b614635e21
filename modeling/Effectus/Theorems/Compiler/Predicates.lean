import Effectus.Theorems.Compiler.Blocks
import Effectus.Theorems.Compiler.Frontend
import Effectus.Theorems.Compiler.Scanner

/-!
The predicates of checked sources. The scan that finds their texts and the parser that finds their blocks agree: where
the scan comes to an end without an error it has found predicates of the tree, in the tree's order, and since it has to
find as many as there are, each block gets the text between its own braces.
-/

namespace Effectus

namespace Compiler

open Fallible

/-! ### The scan at a token -/

/-- A brace comes after the blanks and comments here. -/
def Opens (t : Text) : Prop := ∃ body, trivia t = 0x7B :: body

/-- The bytes a search for an opening brace looks for. -/
def sought : Text := [0x20, 0x09, 0x0D, 0x0A, 0x2F, 0x23, 0x7B]

theorem not_opens_cons {b : UInt8} {t : Text} (h : b ∉ sought) :
    ¬Opens (b :: t) := by
  simp only [sought, List.mem_cons, List.not_mem_nil, or_false, not_or] at h
  obtain ⟨hspace, htab, hreturn, hline, hslash, hhash, hopen⟩ := h
  rintro ⟨body, hbody⟩
  rw [trivia_cons, if_neg (by simp [hspace, htab, hreturn, hline]), if_neg (by simp [startsComment_cons t hslash hhash])]
    at hbody
  exact hopen (List.cons.inj hbody).1

theorem extract_selects {t selectors rest : Text} (h : Selects t selectors rest)
    (hopen : ("when" : Text) <:+ selectors → ¬Opens rest) : extractWhenBlocks t = extractWhenBlocks rest := by
  induction h with
  | nil => rfl
  | @field t name more rest scan selectors selects ih =>
    have hdot := extract_plain (w := [0x2E]) (r := t) (by simp [isMark, isQuote, isWordStart])
    rw [List.singleton_append] at hdot
    rw [hdot, extract_word scan ?_, ih fun hsuffix => hopen (hsuffix.trans (List.suffix_append ..))]
    rintro rfl body hbody
    cases selects with
    | nil => exact hopen (by simp) ⟨body, hbody⟩
    | field => exact not_opens_cons (by decide) ⟨body, hbody⟩
    | index => exact not_opens_cons (by decide) ⟨body, hbody⟩
  | @index t n more rest ht selectors _ ih =>
    have hindex := extract_plain (w := 0x5B :: n.digits ++ [0x5D]) (r := more) ?_
    · rw [ht, ← ih fun hsuffix => hopen (hsuffix.trans ?_), ← hindex]
      · simp
      · exact ⟨0x5B :: n.digits ++ [0x5D], by simp⟩
    · simp only [List.cons_append, List.mem_cons, List.mem_append, List.not_mem_nil, or_false]
      rintro b (rfl | hb | rfl)
      · decide
      · exact (isDigit_plain b (n.isDigits b hb)).1
      · decide

/-- The scan passes over a token, or loses itself in a string. -/
theorem Token.extract_eq {token : Token} {t rest : Text} (h : Front t token.lexeme rest)
    (hopen : token.isElided = false → token.EndsWhen → ¬Opens rest) :
    extractWhenBlocks t = extractWhenBlocks rest ∨ extractWhenBlocks t = .ok [] := by
  obtain ⟨lexeme, pos⟩ := token
  change Front t lexeme rest at h
  cases h with
  | comment starts =>
    left
    have hword : ∀ {b : UInt8} {t : Text}, isWordStart b = false → isQuote b = false → CommentAt (b :: t) →
        extractWhenBlocks (b :: t) = extractWhenBlocks ((b :: t).dropWhile (· ≠ 0x0A)) := by
      intro b t hword hquote hstart
      rw [extract_cons hword, if_neg (by simp [hquote]), if_pos (startsComment_iff.2 hstart), skipSourceComment]
    rcases id starts with ⟨more, rfl⟩ | ⟨more, rfl⟩
    · exact hword (by decide) (by decide) starts
    · exact hword (by decide) (by decide) starts
  | blanks _ blank text =>
    rw [text]
    exact .inl (extract_plain fun b hb => (isBlank_plain b (blank b hb)).1)
  | @float whole fraction _ text =>
    rw [text]
    refine .inl (extract_plain ?_)
    simp only [List.mem_append, List.mem_cons]
    rintro b (hb | rfl | hb)
    · exact (isDigit_plain b (whole.isDigits b hb)).1
    · decide
    · exact (isDigit_plain b (fraction.isDigits b hb)).1
  | @int n _ text =>
    rw [text]
    exact .inl (extract_plain fun b hb => (isDigit_plain b (n.isDigits b hb)).1)
  | @string s rest text closes =>
    have hquote : s.quote.byte ≠ 0x5C ∧ s.quote.byte ≠ 0x0A ∧ isWordStart s.quote.byte = false ∧
        isQuote s.quote.byte = true := by
      cases s.quote <;> decide
    obtain ⟨hslash, hline, hword, hquote⟩ := hquote
    subst text
    rw [Quoted.text, List.cons_append, List.cons_append, extract_cons hword, if_pos hquote]
    rcases (skipQuotedSource_of_closing hslash hline _).2 _ _ closes with hskip | hskip
    · exact .inl (congrArg extractWhenBlocks hskip)
    · exact .inr ((congrArg extractWhenBlocks hskip).trans extract_nil)
  | @sign kind w rest mem text code =>
    have hsigns : ∀ x ∈ signs, (∀ b ∈ x.2, isMark b = false ∧ isWordStart b = false) ∨ x.2 = [0x2F] := by decide +kernel
    left
    rcases hsigns _ mem with hplain | hslash
    · rw [text, extract_plain hplain]
    · have hslash : w = [0x2F] := hslash
      subst hslash text
      rw [List.singleton_append] at code ⊢
      rw [extract_cons (by decide), if_neg (by decide), if_neg (mt startsComment_iff.1 code)]
  | @varRef name rest text scan =>
    left
    have hdollar := extract_plain (w := [0x24]) (r := name ++ rest) (by simp [isMark, isQuote, isWordStart])
    rw [text, List.cons_append]
    rw [List.singleton_append] at hdollar
    rw [hdollar, extract_word scan]
    rintro rfl body hbody
    exact hopen rfl (List.suffix_cons ..) ⟨body, hbody⟩
  | @factPath name selectors more rest nonempty scan selects =>
    left
    rw [extract_word scan, extract_selects selects]
    · exact fun hends => hopen rfl (hends.trans (List.suffix_append ..))
    · rintro rfl body hbody
      cases selects with
      | nil => exact nonempty rfl
      | field => exact not_opens_cons (by decide) ⟨body, hbody⟩
      | index => exact not_opens_cons (by decide) ⟨body, hbody⟩
  | ident scan =>
    left
    rw [extract_word scan]
    rintro rfl body hbody
    exact hopen rfl List.suffix_rfl ⟨body, hbody⟩

theorem scanIdent_plain {t name rest : Text} (scan : scanIdent t = some (name, rest)) :
    ∀ b ∈ name, isMark b = false ∧ b ≠ 0x7B ∧ b ≠ 0x7D := by
  obtain ⟨-, -, rfl, -⟩ := scanIdent_some scan
  exact fun b hb => isWordPart_plain b (List.mem_takeWhile_imp hb)

theorem Selects.plain {t selectors rest : Text} (h : Selects t selectors rest) :
    ∀ b ∈ selectors, isMark b = false ∧ b ≠ 0x7B ∧ b ≠ 0x7D := by
  induction h with
  | nil => exact nofun
  | field scan _ ih =>
    simp only [List.cons_append, List.mem_cons, List.mem_append]
    rintro b (rfl | hb | hb)
    · decide
    · exact scanIdent_plain scan b hb
    · exact ih b hb
  | @index _ n _ _ _ _ _ ih =>
    simp only [List.cons_append, List.mem_cons, List.mem_append]
    rintro b (rfl | hb | rfl | hb)
    · decide
    · exact (isDigit_plain b (n.isDigits b hb)).2
    · decide
    · exact ih b hb

/-- So does the search for the closing brace, at a token that is no brace. -/
theorem Token.close_eq {token : Token} {t rest : Text} (h : Front t token.lexeme rest)
    (hplain : token.isPredicate = true) : close t = close rest ∨ close t = none := by
  obtain ⟨lexeme, pos⟩ := token
  change Front t lexeme rest at h
  have hwords : ∀ {w more : Text}, (∀ b ∈ w, isMark b = false ∧ b ≠ 0x7B ∧ b ≠ 0x7D) → t = w ++ more →
      close t = close more := fun hw ht => ht ▸ close_plain hw
  cases h with
  | comment starts =>
    left
    have hcomment : ∀ {b : UInt8} {t : Text}, isQuote b = false → CommentAt (b :: t) →
        close (b :: t) = close ((b :: t).dropWhile (· ≠ 0x0A)) := by
      intro b t hquote hstart
      rw [close_cons, if_neg (by simp [hquote]), if_pos (startsComment_iff.2 hstart), skipSourceComment]
    rcases id starts with ⟨more, rfl⟩ | ⟨more, rfl⟩
    · exact hcomment (by decide) starts
    · exact hcomment (by decide) starts
  | blanks _ blank text => exact .inl (hwords (fun b hb => (isBlank_plain b (blank b hb)).2) text)
  | @float whole fraction _ text =>
    refine .inl (hwords ?_ text)
    simp only [List.mem_append, List.mem_cons]
    rintro b (hb | rfl | hb)
    · exact (isDigit_plain b (whole.isDigits b hb)).2
    · decide
    · exact (isDigit_plain b (fraction.isDigits b hb)).2
  | @int n _ text => exact .inl (hwords (fun b hb => (isDigit_plain b (n.isDigits b hb)).2) text)
  | @string s rest text closes =>
    have hquote : s.quote.byte ≠ 0x5C ∧ s.quote.byte ≠ 0x0A ∧ isQuote s.quote.byte = true := by
      cases s.quote <;> decide
    obtain ⟨hslash, hline, hquote⟩ := hquote
    subst text
    rw [Quoted.text, List.cons_append, List.cons_append, close_cons, if_pos hquote]
    rcases (skipQuotedSource_of_closing hslash hline _).2 _ _ closes with hskip | hskip
    · exact .inl (congrArg close hskip)
    · exact .inr ((congrArg close hskip).trans close_nil)
  | @sign kind w rest mem text code =>
    have hsigns : ∀ x ∈ signs, x.1 ≠ .braces →
        (∀ b ∈ x.2, isMark b = false ∧ b ≠ 0x7B ∧ b ≠ 0x7D) ∨ x.2 = [0x2F] := by decide +kernel
    have hkind : kind ≠ .braces := by
      rintro rfl
      cases hplain
    left
    rcases hsigns _ mem hkind with hplain | hslash
    · exact hwords hplain text
    · have hslash : w = [0x2F] := hslash
      subst hslash text
      rw [List.singleton_append] at code ⊢
      rw [close_cons, if_neg (by decide), if_neg (mt startsComment_iff.1 code), if_neg (by decide), if_neg (by decide)]
  | varRef text scan =>
    refine .inl (hwords (List.forall_mem_cons.2 ⟨by decide, scanIdent_plain scan⟩) text)
  | factPath nonempty scan selects =>
    refine .inl (hwords (List.forall_mem_append.2 ⟨scanIdent_plain scan, selects.plain⟩) ?_)
    rw [List.append_assoc, ← selects.text]
    exact (scanIdent_some scan).2.1
  | ident scan => exact .inl (hwords (scanIdent_plain scan) (scanIdent_some scan).2.1)

/-- A brace the scan sees is the next token, or comes after blanks and comments. -/
theorem Front.opens {t rest body : Text} {lexeme : Lexeme} (h : Front t lexeme rest) (hopen : trivia t = 0x7B :: body) :
    (∃ kind w, lexeme = .word kind w ∧ (kind = .comment ∨ kind = .whitespace) ∧ trivia rest = 0x7B :: body) ∨
      lexeme = .word .braces [0x7B] ∧ rest = body := by
  have hnot : ∀ {b : UInt8} {w more : Text}, b ∉ sought →
      t ≠ b :: w ++ more := by
    rintro b w more hb rfl
    exact not_opens_cons hb ⟨body, hopen⟩
  have hdigit : ∀ b : UInt8, Text.isDigit b = true → b ∉ sought :=
    forall_byte (by decide +kernel)
  have hword : ∀ b : UInt8, isWordStart b = true → b ∉ sought :=
    forall_byte (by decide +kernel)
  cases h with
  | comment starts =>
    have htrivia : ∀ {b : UInt8} {u : Text}, (b = 0x2F ∨ b = 0x23) → CommentAt (b :: u) →
        trivia (b :: u) = trivia ((b :: u).dropWhile (· ≠ 0x0A)) := by
      intro b u hb hstart
      rw [trivia_cons, if_neg (by rcases hb with rfl | rfl <;> decide), if_pos (startsComment_iff.2 hstart),
        skipSourceComment]
    refine .inl ⟨_, _, rfl, .inl rfl, ?_⟩
    rw [← hopen]
    rcases id starts with ⟨more, rfl⟩ | ⟨more, rfl⟩
    · exact (htrivia (.inl rfl) starts).symm
    · exact (htrivia (.inr rfl) starts).symm
  | @blanks w rest _ blank text =>
    have hblank : ∀ b : UInt8, isBlank b = true → (b = 0x20 ∨ b = 0x09 ∨ b = 0x0D ∨ b = 0x0A) ∨
        b ∉ sought := forall_byte (by decide +kernel)
    -- A form feed is a blank of the lexer's only: the scan stops there and sees no brace.
    have hskip : ∀ w : Text, (∀ b ∈ w, isBlank b = true) → trivia (w ++ rest) = 0x7B :: body →
        trivia rest = 0x7B :: body := by
      intro w
      induction w with
      | nil => exact fun _ h => h
      | cons b w ih =>
        intro hw h
        obtain ⟨hb, hw⟩ := List.forall_mem_cons.1 hw
        rw [List.cons_append] at h
        rcases hblank b hb with hb | hb
        · rw [trivia_cons, if_pos hb] at h
          exact ih hw h
        · exact absurd ⟨body, h⟩ (not_opens_cons hb)
    exact .inl ⟨_, _, rfl, .inr rfl, hskip w blank (text ▸ hopen)⟩
  | @float whole fraction _ text =>
    obtain ⟨b, w, hdigits⟩ := List.exists_cons_of_ne_nil whole.nonempty
    have hb := hdigit b (whole.isDigits b (hdigits ▸ List.mem_cons_self ..))
    rw [hdigits, List.cons_append] at text
    exact absurd text (hnot hb)
  | @int n _ text =>
    obtain ⟨b, w, hdigits⟩ := List.exists_cons_of_ne_nil n.nonempty
    have hb := hdigit b (n.isDigits b (hdigits ▸ List.mem_cons_self ..))
    rw [hdigits] at text
    exact absurd text (hnot hb)
  | @string s _ text =>
    rw [Quoted.text, List.cons_append] at text
    exact absurd text (hnot (by cases s.quote <;> decide))
  | @sign kind w rest mem text code =>
    have hsigns : ∀ x ∈ signs, x = (.braces, [0x7B]) ∨ x.2 = [0x2F] ∨
        ∃ b ∈ x.2.head?, b ∉ sought := by decide
    rcases hsigns _ mem with hbrace | hslash | ⟨b, hhead, hb⟩
    · cases hbrace
      subst text
      rw [List.singleton_append, trivia_cons, if_neg (by decide),
        if_neg (by simp [startsComment_cons rest (show (0x7B : UInt8) ≠ 0x2F by decide) (by decide)])] at hopen
      exact .inr ⟨rfl, (List.cons.inj hopen).2⟩
    · have hslash : w = [0x2F] := hslash
      subst hslash text
      rw [List.singleton_append] at code hopen
      rw [trivia_cons, if_neg (by decide), if_neg (mt startsComment_iff.1 code)] at hopen
      cases hopen
    · obtain ⟨w', hw⟩ := List.head?_eq_some_iff.1 hhead
      have hw : w = b :: w' := hw
      rw [hw] at text
      exact absurd text (hnot hb)
  | varRef text => exact absurd text (hnot (by decide))
  | factPath _ scan =>
    obtain ⟨⟨b, w, rfl, hb⟩, ht, -⟩ := scanIdent_some scan
    exact absurd ht (hnot (hword b hb))
  | ident scan =>
    obtain ⟨⟨b, w, rfl, hb⟩, ht, -⟩ := scanIdent_some scan
    exact absurd ht (hnot (hword b hb))

/-! ### The scan of a source -/

/-- The text that is left at a position. -/
def At (source : Text) (pos : Position) (t : Text) : Prop := ∃ before, source = before ++ t ∧ before.length = pos.offset

theorem At.append {source w t : Text} {pos pos' : Position} (h : At source pos (w ++ t))
    (hpos : pos'.offset = pos.offset + w.length) : At source pos' t := by
  obtain ⟨before, hsource, hlength⟩ := h
  exact ⟨before ++ w, by rw [hsource, List.append_assoc], by rw [List.length_append, hlength, hpos]⟩

/-- The text between two braces. -/
def Braces.text (source : Text) (braces : Braces) : Text :=
  (source.drop braces.opened).take (braces.closed - braces.opened)

theorem At.text {source w t : Text} {pos : Position} (h : At source pos (w ++ t)) :
    Braces.text source ⟨pos.offset, pos.offset + w.length⟩ = w := by
  obtain ⟨before, rfl, hlength⟩ := h
  simp [Braces.text, ← hlength]

/-- The tokens the parser reads. -/
abbrev kept (tokens : List Token) : List Token := tokens.filter fun token => !token.isElided

/-- A brace the scan sees is the next token the parser reads. -/
theorem Lexes.opens {pos : Position} {t body : Text} {all : List Token} (h : Lexes pos t all)
    (hopen : trivia t = 0x7B :: body) : ∃ opening more w, kept all = opening :: kept more ∧ opening.IsOpen ∧
      more.length < all.length ∧ Lexes (opening.pos.advance [0x7B]) body more ∧ t = w ++ 0x7B :: body ∧
      opening.pos.offset = pos.offset + w.length := by
  induction h with
  | nil => cases hopen
  | @cons pos t rest lexeme tokens front lexes ih =>
    rcases front.opens hopen with ⟨kind, w, rfl, hkind, hrest⟩ | ⟨rfl, rfl⟩
    · obtain ⟨opening, more, w', hkept, hopens, hlength, hmore, ht, hpos⟩ := ih hrest
      have hskip : kept (⟨.word kind w, pos⟩ :: tokens) = kept tokens :=
        List.filter_cons_of_neg (by rcases hkind with rfl | rfl <;> simp [Token.isElided])
      refine ⟨opening, more, w ++ w', hskip.trans hkept, hopens, hlength.trans (Nat.lt_succ_self _), hmore, ?_, ?_⟩
      · rw [front.append, ht, List.append_assoc]
        rfl
      · rw [hpos, Position.advance_offset, List.length_append, Lexeme.text, Nat.add_assoc]
    · exact ⟨⟨.word .braces [0x7B], pos⟩, tokens, [], rfl, rfl, Nat.lt_succ_self _, lexes, front.append, rfl⟩

/-- Where the parser finds the end of a predicate the scan finds it too, if it finds any. -/
theorem Lexes.closes {pos : Position} {t : Text} {all inside rest : List Token} {closing : Token} (h : Lexes pos t all)
    (hkept : kept all = inside ++ closing :: rest) (hplain : ∀ token ∈ inside, token.isPredicate = true)
    (hcloses : closing.IsClose) :
    close t = none ∨ ∃ more w after, kept more = rest ∧ more.length < all.length ∧
      Lexes (closing.pos.advance [0x7D]) after more ∧ t = w ++ 0x7D :: after ∧
      closing.pos.offset = pos.offset + w.length ∧ close t = some after := by
  induction h generalizing inside with
  | nil => simp at hkept
  | @cons pos t after lexeme tokens front lexes ih =>
    -- A token that is no brace is passed over.
    have hpass : ∀ {inside : List Token}, (⟨lexeme, pos⟩ : Token).isPredicate = true →
        kept tokens = inside ++ closing :: rest → (∀ token ∈ inside, token.isPredicate = true) →
        close t = none ∨ ∃ more w after, kept more = rest ∧ more.length < (⟨lexeme, pos⟩ :: tokens : List Token).length ∧
          Lexes (closing.pos.advance [0x7D]) after more ∧ t = w ++ 0x7D :: after ∧
          closing.pos.offset = pos.offset + w.length ∧ close t = some after := by
      intro inside hpredicate hkept hplain
      rcases Token.close_eq front hpredicate with hclose | hclose
      · rcases ih hkept hplain with hnone | ⟨more, w, after', hmore, hlength, hlexes, ht, hpos, hsome⟩
        · exact .inl (hclose.trans hnone)
        · refine .inr ⟨more, lexeme.text ++ w, after', hmore, hlength.trans (Nat.lt_succ_self _), hlexes, ?_, ?_, ?_⟩
          · rw [front.append, ht, List.append_assoc]
          · rw [hpos, Position.advance_offset, List.length_append, Nat.add_assoc]
          · exact hclose.trans hsome
      · exact .inl hclose
    by_cases helided : (⟨lexeme, pos⟩ : Token).isElided = true
    · rw [kept, List.filter_cons_of_neg (by simp [helided])] at hkept
      refine hpass ?_ hkept hplain
      cases lexeme with
      | word kind w => cases kind <;> first | rfl | cases helided
      | _ => rfl
    · rw [kept, List.filter_cons_of_pos (by simp [helided])] at hkept
      cases inside with
      | nil =>
        obtain ⟨rfl, hrest⟩ := List.cons.inj hkept
        have hbrace : lexeme = .word .braces [0x7D] := hcloses
        subst hbrace
        refine .inr ⟨tokens, [], after, hrest, Nat.lt_succ_self _, lexes, front.append, rfl, ?_⟩
        rw [front.append]
        exact (close_cons ..).trans (by simp [startsComment, isQuote])
      | cons token inside =>
        obtain ⟨rfl, hrest⟩ := List.cons.inj hkept
        obtain ⟨htoken, hinside⟩ := List.forall_mem_cons.1 hplain
        exact hpass htoken hrest hinside

/-- Predicates that are not told from what is around them. -/
theorem blocks_inside {closing : Token} {rest : List Token} {places : List Braces} (hcloses : closing.IsClose)
    (more : Blocks rest places) : ∀ {inside : List Token}, (∀ token ∈ inside, token.isPredicate = true) →
    Blocks (inside ++ closing :: rest) places
  | [], _ => by
    refine .skip ?_ more
    rw [Token.EndsWhen, show closing.lexeme = .word .braces [0x7D] from hcloses]
    exact fun h => absurd h (by decide)
  | token :: inside, h => by
    obtain ⟨-, hinside⟩ := List.forall_mem_cons.1 h
    refine .skip (fun _ next hnext hopens => ?_) (blocks_inside hcloses more hinside)
    have hbrace : next.lexeme = .word .braces [0x7B] := hopens
    cases inside with
    | nil =>
      cases hnext
      cases hbrace.symm.trans hcloses
    | cons token' inside =>
      cases hnext
      have := hinside _ (List.mem_cons_self ..)
      rw [Token.isPredicate, hbrace] at this
      cases this

theorem Front.scan_of_ident {t rest name : Text} {lexeme : Lexeme} (h : Front t lexeme rest)
    (hlexeme : lexeme = .word .ident name) : scanIdent t = some (name, rest) := by
  cases h with
  | sign mem =>
    cases hlexeme
    have hnone : ∀ x ∈ signs, x.1 ≠ .ident := by decide
    exact absurd rfl (hnone _ mem)
  | ident scan =>
    cases hlexeme
    exact scan
  | _ => cases hlexeme

/-- What the scan finds are predicates of the tree, in its order. -/
theorem extract_sublist {source : Text} : ∀ {n : Nat} {t : Text} {pos : Position} {all : List Token}
    {places : List Braces} {texts : List Text}, all.length < n → Lexes pos t all → At source pos t →
    Blocks (kept all) places → extractWhenBlocks t = .ok texts → texts.Sublist (places.map (Braces.text source)) := by
  intro n
  induction n with
  | zero => exact fun h => absurd h (Nat.not_lt_zero _)
  | succ n ih =>
  intro t pos all places texts hn hlexes hat hblocks hextract
  cases hlexes with
  | nil =>
    cases hextract
    exact List.nil_sublist _
  | @cons _ _ rest lexeme tokens front lexes =>
    have hrest : At source (pos.advance lexeme.text) rest :=
      At.append (front.append ▸ hat) (Position.advance_offset ..)
    -- The scan goes on at the next token, or ends in a string.
    have hpass : ∀ {places}, Blocks (kept tokens) places →
        ((⟨lexeme, pos⟩ : Token).isElided = false → (⟨lexeme, pos⟩ : Token).EndsWhen → ¬Opens rest) →
        texts.Sublist (places.map (Braces.text source)) := by
      intro places hblocks hopen
      rcases Token.extract_eq front hopen with heq | heq
      · exact ih (Nat.lt_of_succ_lt_succ hn) lexes hrest hblocks (heq.symm.trans hextract)
      · cases heq.symm.trans hextract
        exact List.nil_sublist _
    by_cases helided : (⟨lexeme, pos⟩ : Token).isElided = true
    · rw [kept, List.filter_cons_of_neg (by simp [helided])] at hblocks
      exact hpass hblocks fun h => by simp [helided] at h
    rw [kept, List.filter_cons_of_pos (by simp [helided])] at hblocks
    change Blocks (_ :: kept tokens) places at hblocks
    generalize hkept : kept tokens = keptTokens at hblocks hpass
    cases hblocks with
    | skip apart more =>
      refine hpass more fun _ hends hopen => ?_
      obtain ⟨body, hbody⟩ := hopen
      obtain ⟨opening, after, -, hopening, hopens, -⟩ := lexes.opens hbody
      exact apart hends opening (by rw [← hkept, hopening]; rfl) hopens
    | @block _ opening closing inside others places' named opens plain closes more =>
      by_cases hopen : Opens rest
      · obtain ⟨body, hbody⟩ := hopen
        obtain ⟨opening', inner, w, hinner, -, hlength, hlexes, rfl, hpos⟩ := lexes.opens hbody
        obtain ⟨rfl, hinside⟩ := List.cons.inj (hkept.symm.trans hinner)
        have hopened : (opening.pos.advance [0x7B]).offset = opening.pos.offset + 1 := Position.advance_offset ..
        have hbodyAt : At source (opening.pos.advance [0x7B]) body :=
          At.append (w := [0x7B]) (hrest.append hpos) hopened
        rw [extract_block (front.scan_of_ident named) hbody] at hextract
        rcases hlexes.closes hinside.symm plain closes with
          hnone | ⟨outer, w, after, houter, hlength', hlexes', rfl, hpos', hsome⟩
        · rw [hnone] at hextract
          cases hextract
        · rw [hsome] at hextract
          obtain ⟨found, hfound, heq⟩ := bind_ok.1 hextract
          cases heq
          have htext : Braces.text source ⟨opening.pos.offset + 1, closing.pos.offset⟩ = w := by
            rw [hpos', ← hopened]
            exact hbodyAt.text
          have hafter : At source (closing.pos.advance [0x7D]) after :=
            At.append (w := [0x7D]) (hbodyAt.append hpos') (Position.advance_offset ..)
          have hshorter : outer.length < n := (hlength'.trans hlength).trans (Nat.lt_of_succ_lt_succ hn)
          have htaken : (w ++ 0x7D :: after).take ((w ++ 0x7D :: after).length - after.length - 1) = w :=
            List.take_left' (by simp only [List.length_append, List.length_cons]; omega)
          rw [htaken, List.map_cons, htext]
          exact (ih hshorter hlexes' hafter (houter ▸ more) hfound).cons_cons _
      · refine (hpass (.skip ?_ (blocks_inside closes more plain)) fun _ _ => hopen).cons _
        rw [Token.EndsWhen, show opening.lexeme = .word .braces [0x7B] from opens]
        exact fun h => absurd h (by decide)

/-! ### The tree -/

section

variable {N L : Type}

def Rule.predicates (rule : Rule N L) : List (Braces × Text) := rule.blocks.map fun block => (block.braces, block.when)

/-- The blocks of a tree in the order of their declarations: where the braces of each are, and the expression stored. -/
def File.predicates (file : File N L) : List (Braces × Text) :=
  file.rules.flatMap Rule.predicates ++ file.flows.map fun flow => (flow.braces, flow.when)

theorem File.map_places {K M : Type} (g : N → K) (f : L → M) (file : File N L) : (file.map g f).places = file.places := by
  simp [File.map, File.places, Rule.map, Flow.map, WhenThenBlock.map, List.flatMap_map, Function.comp_def]

/-- A restoring step gives blocks at these places the next texts, one each. -/
def Restores {α : Type} (x : StateT (List Text) (Except Err) α) (p : α → List (Braces × Text)) (places : List Braces) :
    Prop :=
  ∀ texts a left, x texts = .ok (a, left) → ∃ used, texts = used ++ left ∧ (p a).map (·.1) = places ∧
    (p a).map (·.2) = used.map Text.trimSpace

theorem nextExpression_ok {texts left : List Text} {expression : Text}
    (h : nextExpression texts = .ok (expression, left)) : ∃ text, texts = text :: left ∧ expression = Text.trimSpace text := by
  cases texts with
  | nil => cases h
  | cons text rest =>
    cases h
    exact ⟨text, rfl, rfl⟩

theorem Restores.mapM {α : Type} {f : α → StateT (List Text) (Except Err) α} {p : α → List (Braces × Text)}
    {places : α → List Braces} : ∀ {xs : List α}, (∀ x ∈ xs, Restores (f x) p (places x)) →
    Restores (xs.mapM f) (List.flatMap p) (xs.flatMap places)
  | [], _, texts, a, left, h => by
    cases h
    exact ⟨[], rfl, rfl, rfl⟩
  | x :: xs, hf, texts, a, left, h => by
    obtain ⟨hx, hxs⟩ := List.forall_mem_cons.1 hf
    rw [List.mapM_cons] at h
    obtain ⟨y, more, hy, h⟩ := run_bind_ok.1 h
    obtain ⟨ys, left', hys, h⟩ := run_bind_ok.1 h
    cases run_pure_ok.1 h
    obtain ⟨used, rfl, hplaces, hused⟩ := hx _ _ _ hy
    obtain ⟨used', rfl, hplaces', hused'⟩ := Restores.mapM hxs _ _ _ hys
    refine ⟨used ++ used', (List.append_assoc ..).symm, ?_, ?_⟩
    · rw [List.flatMap_cons, List.map_append, hplaces, hplaces', List.flatMap_cons]
    · rw [List.flatMap_cons, List.map_append, hused, hused', List.map_append]

theorem restoreBlock_restores (block : WhenThenBlock L) :
    Restores (restoreBlock block) (fun block => [(block.braces, block.when)]) [block.braces] := by
  intro texts a left h
  obtain ⟨expression, left', hexpression, h⟩ := run_bind_ok.1 h
  cases run_pure_ok.1 h
  obtain ⟨text, rfl, rfl⟩ := nextExpression_ok hexpression
  exact ⟨[text], rfl, rfl, rfl⟩

theorem restoreFlow_restores (flow : Flow N L) :
    Restores (restoreFlow flow) (fun flow => [(flow.braces, flow.when)]) [flow.braces] := by
  intro texts a left h
  obtain ⟨expression, left', hexpression, h⟩ := run_bind_ok.1 h
  cases run_pure_ok.1 h
  obtain ⟨text, rfl, rfl⟩ := nextExpression_ok hexpression
  exact ⟨[text], rfl, rfl, rfl⟩

theorem restoreRule_restores (rule : Rule N L) :
    Restores (restoreRule rule) Rule.predicates (rule.blocks.map (·.braces)) := by
  intro texts a left h
  obtain ⟨blocks, left', hblocks, h⟩ := run_bind_ok.1 h
  cases run_pure_ok.1 h
  obtain ⟨used, htexts, hplaces, hused⟩ := Restores.mapM (fun block _ => restoreBlock_restores block) _ _ _ hblocks
  refine ⟨used, htexts, ?_, ?_⟩
  · simpa [Rule.predicates, List.map_flatMap, List.map_eq_flatMap] using hplaces
  · simpa [Rule.predicates, List.map_flatMap, List.map_eq_flatMap] using hused

theorem restoreFile_restores (file : File N L) : Restores (restoreFile file) File.predicates file.places := by
  intro texts a left h
  obtain ⟨rules, more, hrules, h⟩ := run_bind_ok.1 h
  obtain ⟨flows, left', hflows, h⟩ := run_bind_ok.1 h
  cases run_pure_ok.1 h
  obtain ⟨used, rfl, hplaces, hused⟩ := Restores.mapM (fun rule _ => restoreRule_restores rule) _ _ _ hrules
  obtain ⟨used', rfl, hplaces', hused'⟩ := Restores.mapM (fun flow _ => restoreFlow_restores flow) _ _ _ hflows
  refine ⟨used ++ used', (List.append_assoc ..).symm, ?_, ?_⟩
  · rw [File.predicates, List.map_append, hplaces, File.places]
    refine congrArg (_ ++ ·) ?_
    simpa [List.map_flatMap, List.map_eq_flatMap] using hplaces'
  · rw [File.predicates, List.map_append, hused, List.map_append]
    refine congrArg (used.map Text.trimSpace ++ ·) ?_
    simpa [List.map_flatMap, List.map_eq_flatMap] using hused'

end

theorem normalize_predicates (file : File Text AstLiteral) :
    (normalizeCheckedSourceAST file).predicates = file.predicates.map fun p => (p.1, Text.trimSpace p.2) := by
  simp [normalizeCheckedSourceAST, File.predicates, Rule.predicates, Rule.map, Flow.map, WhenThenBlock.map,
    List.flatMap_map, List.map_flatMap, Function.comp_def]

theorem bindings_predicates {N L : Type} {file file' : File N L} (h : normalizeFlowBindings file = .ok file') :
    file'.predicates = file.predicates := by
  obtain ⟨hrules, hflows⟩ := normalizeFlowBindings_ok h
  have hsame : file.flows.map (fun flow => (flow.braces, flow.when)) =
      file'.flows.map (fun flow => (flow.braces, flow.when)) := by
    refine Pointwise.map_eq hflows fun flow flow' hflow => ?_
    obtain ⟨steps, -, rfl⟩ := normalizeFlow_ok hflow
    rfl
  rw [File.predicates, File.predicates, hrules, hsame]

theorem restored_predicates {N L : Type} {tree file : File N L} {content : Text}
    (h : restoreCheckedPredicateText tree content = .ok file) :
    ∃ texts, extractWhenBlocks content = .ok texts ∧ file.predicates.map (·.1) = tree.places ∧
      file.predicates.map (·.2) = texts.map Text.trimSpace := by
  obtain ⟨texts, htexts, h⟩ := bind_ok.1 h
  obtain ⟨⟨restored, left⟩, hrestored, h⟩ := bind_ok.1 h
  obtain ⟨hleft, h⟩ := guard_ok.1 h
  cases h
  obtain rfl : left = [] := not_not.1 hleft
  obtain ⟨used, rfl, hplaces, hused⟩ := restoreFile_restores tree texts _ _ hrestored
  rw [List.append_nil] at htexts
  exact ⟨used, htexts, hplaces, hused⟩

/-! ### Braces -/

/-- An opening brace before the text, a closing one after it. -/
structure Braces.Enclosing (content : Text) (braces : Braces) : Prop where
  opens : ∃ i, braces.opened = i + 1 ∧ content[i]? = some 0x7B
  closes : content[braces.closed]? = some 0x7D

theorem At.getElem? {source t : Text} {pos : Position} {b : UInt8} (h : At source pos (b :: t)) :
    source[pos.offset]? = some b := by
  obtain ⟨before, rfl, hlength⟩ := h
  rw [← hlength, List.getElem?_append_right le_rfl, Nat.sub_self]
  rfl

theorem Lexes.at_token {source t : Text} {pos : Position} {all : List Token} (h : Lexes pos t all) (hat : At source pos t) :
    ∀ token ∈ all, ∃ rest, At source token.pos (token.lexeme.text ++ rest) := by
  induction h with
  | nil => exact nofun
  | @cons pos t rest lexeme tokens front _ ih =>
    rw [front.append] at hat
    refine List.forall_mem_cons.2 ⟨⟨rest, hat⟩, ih (hat.append (Position.advance_offset ..))⟩

theorem Blocks.enclosing {source : Text} {tokens : List Token} {places : List Braces} (h : Blocks tokens places)
    (hat : ∀ token ∈ tokens, ∃ rest, At source token.pos (token.lexeme.text ++ rest)) :
    ∀ place ∈ places, place.Enclosing source := by
  induction h with
  | nil => exact nofun
  | skip _ _ ih => exact ih fun token hm => hat token (List.mem_cons_of_mem _ hm)
  | @block word opening closing inside rest places named opens plain closes more ih =>
    refine List.forall_mem_cons.2 ⟨⟨⟨opening.pos.offset, rfl, ?_⟩, ?_⟩, ih fun token hm => hat token (by simp [hm])⟩
    · obtain ⟨after, hopening⟩ := hat opening (by simp)
      rw [show opening.lexeme = .word .braces [0x7B] from opens] at hopening
      exact hopening.getElem?
    · obtain ⟨after, hclosing⟩ := hat closing (by simp)
      rw [show closing.lexeme = .word .braces [0x7D] from closes] at hclosing
      exact hclosing.getElem?

/-! ### Sources -/

/-- The scan finds as many predicates as the tree has blocks, and each block has the text between its own braces. -/
structure KeepsPredicates (content : Text) (file : File Text AstLiteral) : Prop where
  places : ∃ tree, parse content = some tree ∧ file.predicates.map (·.1) = tree.places
  found : ∃ texts, extractWhenBlocks content = .ok texts ∧ texts.length = file.predicates.length
  braced : ∀ p ∈ file.predicates, p.1.Enclosing content
  restored : ∀ p ∈ file.predicates, p.2 = Text.trimSpace (p.1.text content)

theorem parseSource_keepsPredicates {path content : Text} {parsed : ParsedSource}
    (h : parseSource path content = .ok parsed) : KeepsPredicates content parsed.file := by
  obtain ⟨-, tree, file, hread⟩ := parseSource_ok h
  obtain ⟨texts, htexts, hplaces, hused⟩ := restored_predicates hread.restores
  rw [File.map_places] at hplaces
  have hpredicates := (bindings_predicates hread.normalizes).trans (normalize_predicates file)
  have hplaces' : parsed.file.predicates.map (·.1) = tree.places := by
    rw [hpredicates, List.map_map, ← hplaces]
    rfl
  obtain ⟨tokens, hlex, hblocks, -⟩ := parse_blocks hread.parses
  obtain ⟨all, hlexes, rfl⟩ := lexes_of_lex hlex
  have hat : At content ⟨0, 1, 1⟩ content := ⟨[], rfl, rfl⟩
  -- As many texts as blocks, so that none of them is left out.
  have hlength : texts.length = (tree.places.map (Braces.text content)).length := by
    rw [List.length_map, ← hplaces, List.length_map, ← List.length_map (f := fun p : Braces × Text => p.2), hused,
      List.length_map]
  have heq := (extract_sublist (Nat.lt_succ_self _) hlexes hat hblocks htexts).eq_of_length hlength
  refine ⟨⟨tree, hread.parses, hplaces'⟩, ⟨texts, htexts, ?_⟩, ?_, ?_⟩
  · rw [hlength, List.length_map, ← hplaces', List.length_map]
  · intro p hp
    refine hblocks.enclosing (fun token hm => hlexes.at_token hat token (List.mem_of_mem_filter hm)) p.1 ?_
    rw [← hplaces']
    exact List.mem_map_of_mem hp
  · rw [hpredicates]
    have hpairs : file.predicates.map (·.2) = file.predicates.map fun p => Text.trimSpace (p.1.text content) := by
      rw [hused, heq, ← hplaces, List.map_map, List.map_map]
      rfl
    intro p hp
    obtain ⟨q, hq, rfl⟩ := List.mem_map.1 hp
    show Text.trimSpace q.2 = _
    rw [List.map_inj_left.1 hpairs q hq, Text.trimSpace_trimSpace]

/-- Every source the front end accepts keeps its predicates. -/
theorem predicates_restored {sources : List Source} {ordered : List ParsedSource}
    (h : parseSources sources = .ok ordered) :
    ∃ parsed, parsed.Perm ordered ∧ List.Forall₂ (fun source p =>
      normalizeSourcePath source.path = .ok p.path ∧ KeepsPredicates source.content p.file) sources parsed := by
  obtain ⟨parsed, hread, -, rfl⟩ := parseSources_ok h
  refine ⟨parsed, (List.perm_insertionSort _ _).symm, hread.imp fun source p hp => ?_⟩
  exact ⟨hp.path, parseSource_keepsPredicates hp.file⟩

/-- A predicate with a brace in a string, and the word with one in another. -/
def bracedSource : Source where
  path := "a.eff"
  content := "rule \"a\" priority 1 \x7b when \x7b x == \"\x7d\" \x7d then \x7b say(when: 'when \x7b') \x7d \x7d"

theorem bracedSource_parses : (parseSources [bracedSource]).isOk = true := by decide +kernel

theorem predicates_restored_braced : ∃ ordered, parseSources [bracedSource] = .ok ordered ∧
    ∃ parsed, parsed.Perm ordered ∧ List.Forall₂ (fun source p =>
      normalizeSourcePath source.path = .ok p.path ∧ KeepsPredicates source.content p.file) [bracedSource] parsed := by
  have hparses := bracedSource_parses
  cases h : parseSources [bracedSource] with
  | error err =>
    rw [h] at hparses
    cases hparses
  | ok ordered => exact ⟨ordered, rfl, predicates_restored h⟩

end Compiler

end Effectus

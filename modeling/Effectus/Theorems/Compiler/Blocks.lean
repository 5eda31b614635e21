import Effectus.Compiler.Grammar
import Effectus.Lib.Parsing
import Effectus.Theorems.Compiler.Tokens

/-!
What the tokens of a source that parses look like: the word `when` stands before an opening brace only where a predicate
does, no brace stands inside a predicate, and every declaration is where its first token is.
-/

namespace Effectus

namespace Compiler

open Parsing

/-! ### Tokens -/

/-- A token the lexer makes. -/
def Token.Lexed (token : Token) : Prop := ∃ t rest, Front t token.lexeme rest

def Token.IsOpen (token : Token) : Prop := token.lexeme = .word .braces [0x7B]

def Token.IsClose (token : Token) : Prop := token.lexeme = .word .braces [0x7D]

/-- A token that ends in the word. -/
def Token.EndsWhen (token : Token) : Prop := ("when" : Text) <:+ token.lexeme.text

theorem Lexes.lexed {pos : Position} {t : Text} {tokens : List Token} (h : Lexes pos t tokens) :
    ∀ token ∈ tokens, token.Lexed := by
  induction h with
  | nil => exact nofun
  | cons front _ ih =>
    intro token hm
    rcases List.mem_cons.1 hm with rfl | hm
    · exact ⟨_, _, front⟩
    · exact ih token hm

/-- Only a brace has the text of one. -/
theorem Front.brace {t rest : Text} {lexeme : Lexeme} (h : Front t lexeme rest) {b : UInt8} (hb : b = 0x7B ∨ b = 0x7D)
    (htext : lexeme.text = [b]) : lexeme = .word .braces [b] := by
  have hnot : ∀ {p : UInt8 → Bool} {c : UInt8}, c = b → p 0x7B = false → p 0x7D = false → p c = true → False := by
    rintro p c rfl ho hc hp
    rcases hb with rfl | rfl <;> simp_all
  cases h with
  | comment starts =>
    rcases starts with ⟨more, rfl⟩ | ⟨more, rfl⟩ <;> rcases hb with rfl | rfl <;> cases htext
  | @blanks w _ nonempty blank =>
    have : isBlank b = true := blank b (by rw [show w = [b] from htext]; exact List.mem_singleton_self _)
    exact (hnot rfl rfl rfl this).elim
  | @float whole fraction =>
    have hlen := congrArg List.length htext
    simp only [Lexeme.text, List.length_append, List.length_cons, List.length_nil] at hlen
    have := List.length_pos_iff.2 whole.nonempty
    have := List.length_pos_iff.2 fraction.nonempty
    omega
  | @int n =>
    have : Text.isDigit b = true := n.isDigits b (by rw [show n.digits = [b] from htext]; exact List.mem_singleton_self _)
    exact (hnot rfl rfl rfl this).elim
  | @string s => simp [Lexeme.text, Quoted.text] at htext
  | @sign kind w _ mem =>
    have hkind : ∀ x ∈ signs, x.2 = [0x7B] ∨ x.2 = [0x7D] → x.1 = .braces := by decide
    have hw : w = [b] := htext
    have hbraces : kind = .braces := hkind _ mem (hb.imp (fun h => by rw [hw, h]) fun h => by rw [hw, h])
    rw [hbraces, hw]
  | varRef => rcases hb with rfl | rfl <;> cases htext
  | factPath _ scan =>
    obtain ⟨⟨c, w, rfl, hc⟩, -⟩ := scanIdent_some scan
    exact (hnot (List.cons.inj htext).1 rfl rfl hc).elim
  | ident scan =>
    obtain ⟨⟨c, w, rfl, hc⟩, -⟩ := scanIdent_some scan
    exact (hnot (List.cons.inj htext).1 rfl rfl hc).elim

/-- Only an identifier has the text of the word. -/
theorem Front.when {t rest : Text} {lexeme : Lexeme} (h : Front t lexeme rest) (htext : lexeme.text = ("when" : Text)) :
    lexeme = .word .ident "when" := by
  cases h with
  | comment starts => rcases starts with ⟨more, rfl⟩ | ⟨more, rfl⟩ <;> cases htext
  | @blanks w _ nonempty blank =>
    have := blank 0x77 (by rw [show w = ("when" : Text) from htext]; decide)
    exact absurd this (by decide)
  | @float whole fraction =>
    have hmem : (0x2E : UInt8) ∈ ("when" : Text) := htext ▸ List.mem_append_right _ (List.mem_cons_self ..)
    exact absurd hmem (by decide)
  | @int n =>
    have := n.isDigits 0x77 (by rw [show n.digits = ("when" : Text) from htext]; decide)
    exact absurd this (by decide)
  | @string s =>
    have hhead : s.quote.byte = 0x77 := (List.cons.inj htext).1
    cases hq : s.quote <;> rw [hq] at hhead <;> cases hhead
  | @sign kind w _ mem =>
    have hnone : ∀ x ∈ signs, x.2 ≠ ("when" : Text) := by decide
    exact absurd htext (hnone _ mem)
  | varRef => cases htext
  | @factPath name selectors more _ nonempty scan selects =>
    have hmark : (0x2E : UInt8) ∈ selectors ∨ (0x5B : UInt8) ∈ selectors := by
      cases selects with
      | nil => exact absurd rfl nonempty
      | field => exact .inl (List.mem_cons_self ..)
      | index => exact .inr (List.mem_cons_self ..)
    have hmem : ∀ b ∈ selectors, b ∈ ("when" : Text) := fun b hb => htext ▸ List.mem_append_right _ hb
    rcases hmark with hmark | hmark <;> exact absurd (hmem _ hmark) (by decide)
  | ident => exact congrArg (Lexeme.word .ident) htext

/-! ### Blocks -/

/-- Where the predicates stand among the tokens of a source that has none elsewhere. -/
inductive Blocks : List Token → List Braces → Prop
  | nil : Blocks [] []
  | skip {token : Token} {rest : List Token} {places : List Braces}
      (apart : token.EndsWhen → ∀ next ∈ rest.head?, ¬next.IsOpen) (more : Blocks rest places) :
      Blocks (token :: rest) places
  | block {word opening closing : Token} {inside rest : List Token} {places : List Braces}
      (named : word.lexeme = .word .ident "when") (opens : opening.IsOpen)
      (plain : ∀ token ∈ inside, token.isPredicate = true) (closes : closing.IsClose) (more : Blocks rest places) :
      Blocks (word :: opening :: (inside ++ closing :: rest)) (⟨opening.pos.offset + 1, closing.pos.offset⟩ :: places)

/-- Tokens with these predicates among them, whatever follows. -/
def Passes (taken : List Token) (places : List Braces) : Prop :=
  ∀ ⦃rest more⦄, Blocks rest more → Blocks (taken ++ rest) (places ++ more)

/-- Tokens without a predicate among them, if what follows them does not open a brace; they do not either. -/
structure Soft (taken : List Token) : Prop where
  leads : ∀ first ∈ taken.head?, ¬first.IsOpen
  passes : ∀ ⦃rest more⦄, (∀ next ∈ rest.head?, ¬next.IsOpen) → Blocks rest more → Blocks (taken ++ rest) more

theorem Passes.nil : Passes [] [] := fun _ _ h => h

theorem Passes.append {a b : List Token} {x y : List Braces} (ha : Passes a x) (hb : Passes b y) :
    Passes (a ++ b) (x ++ y) := by
  intro rest more h
  rw [List.append_assoc, List.append_assoc]
  exact ha (hb h)

theorem passes_token {token : Token} (h : ¬token.EndsWhen) : Passes [token] [] :=
  fun _ _ more => .skip (fun hends => absurd hends h) more

theorem soft_nil : Soft [] := ⟨nofun, fun _ _ _ h => h⟩

theorem soft_token {token : Token} (h : ¬token.IsOpen) : Soft [token] where
  leads := by
    rintro _ ⟨⟩
    exact h
  passes := fun _ _ hnext more => .skip (fun _ => hnext) more

theorem Soft.append {a b : List Token} (ha : Soft a) (hb : Soft b) : Soft (a ++ b) where
  leads := by
    cases a with
    | nil => exact hb.leads
    | cons first a => exact ha.leads
  passes := by
    intro rest more hnext h
    rw [List.append_assoc]
    refine ha.passes ?_ (hb.passes hnext h)
    cases b with
    | nil => exact hnext
    | cons first b => exact hb.leads

theorem Passes.soft {a : List Token} (ha : Passes a []) (hlead : ∀ first ∈ a.head?, ¬first.IsOpen) : Soft a :=
  ⟨hlead, fun _ _ _ h => ha h⟩

/-- What closes a part. -/
theorem Soft.close {a b : List Token} (ha : Soft a) (hb : Passes b []) (hne : b ≠ [])
    (hlead : ∀ first ∈ b.head?, ¬first.IsOpen) : Passes (a ++ b) [] := by
  intro rest more h
  rw [List.append_assoc]
  refine ha.passes ?_ (hb h)
  obtain ⟨first, b, rfl⟩ := List.exists_cons_of_ne_nil hne
  exact hlead

/-! ### Parsers -/

/-- What the parsers of the grammar read. -/
abbrev Reading {α : Type} (p : Parse α) (Q : α → List Token → Prop) : Prop := Reads Token.Lexed p Q

variable {α : Type} {fuel : Nat}

theorem next_reads : Reading next fun token taken => taken = [token] ∧ token.Lexed := by
  intro ts token rest hlexed h
  cases ts with
  | nil => cases h
  | cons first ts =>
    cases h
    exact ⟨[token], rfl, rfl, hlexed token (List.mem_cons_self ..)⟩

theorem many_reads {p : Parse α} {Q : α → List Token → Prop} {M : List α → List Token → Prop} (hp : Reading p Q)
    (hnil : M [] []) (hcons : ∀ a as taken more, Q a taken → M as more → M (a :: as) (taken ++ more)) :
    ∀ fuel, Reading (many p fuel) M
  | 0 => .pure hnil
  | fuel + 1 => by
    refine Reads.orElse (Reads.bind hp fun a taken ha => ?_) (.pure hnil)
    refine Reads.bind (many_reads hp hnil hcons fuel) fun as more has => .pure ?_
    rw [List.append_nil]
    exact hcons a as taken more ha has

theorem keyword_reads (text : Text) :
    Reading (keyword text) fun token taken => taken = [token] ∧ token.Lexed ∧ token.lexeme.text = text := by
  refine Reads.bind next_reads fun token taken ⟨htaken, hlexed⟩ => ?_
  refine Reads.ite (fun htext => .pure ?_) fun _ => .failure
  rw [List.append_nil]
  exact ⟨htaken, hlexed, htext⟩

/-- A keyword that has nothing to do with predicates. -/
theorem keyword_passes {text : Text} (h : ¬("when" : Text) <:+ text) :
    Reading (keyword text) fun token taken => taken = [token] ∧ Passes taken [] :=
  (keyword_reads text).mono fun _ _ ⟨htaken, _, htext⟩ =>
    ⟨htaken, htaken ▸ passes_token fun hends => h (htext ▸ hends)⟩

/-- A keyword that is no brace either. -/
theorem keyword_soft {text : Text} (h : ¬("when" : Text) <:+ text) (hopen : text ≠ [0x7B]) :
    Reading (keyword text) fun _ taken => taken ≠ [] ∧ Passes taken [] ∧ Soft taken := by
  refine (keyword_reads text).mono ?_
  rintro token _ ⟨rfl, -, htext⟩
  have hpasses : Passes [token] [] := passes_token fun hends => h (htext ▸ hends)
  refine ⟨List.cons_ne_nil _ _, hpasses, hpasses.soft ?_⟩
  rintro _ ⟨⟩ hopens
  rw [hopens] at htext
  exact hopen htext.symm

theorem word_soft {kind : WordKind} (h : kind ≠ .braces) : Reading (word kind) fun _ taken => Soft taken := by
  refine Reads.bind next_reads ?_
  rintro token _ ⟨rfl, -⟩
  split
  · rename_i kind' text hlexeme
    refine Reads.ite (fun hkind => .pure (soft_token fun hopens => ?_)) fun _ => .failure
    rw [hopens] at hlexeme
    cases hlexeme
    exact h hkind.symm
  · exact .failure

/-- A text whose last byte is not that of the word. -/
theorem not_suffix_when {t : Text} (h : t.getLast? ≠ some 0x6E) : ¬("when" : Text) <:+ t := by
  rintro ⟨before, rfl⟩
  refine h ?_
  rw [List.getLast?_append_of_ne_nil _ (by decide)]
  decide

theorem stringToken_passes : Reading stringToken fun _ taken => Passes taken [] := by
  refine Reads.bind next_reads ?_
  rintro token _ ⟨rfl, -⟩
  split
  · rename_i s hlexeme
    refine .pure (passes_token (not_suffix_when ?_))
    rw [hlexeme, Lexeme.text, Quoted.text, List.getLast?_concat]
    cases s.quote <;> decide
  · exact .failure

theorem numeral_last (n : Numeral) (t : Text) : (t ++ n.digits).getLast? ≠ some 0x6E := by
  rw [List.getLast?_append_of_ne_nil _ n.nonempty]
  intro hlast
  exact absurd (n.isDigits _ (List.mem_of_mem_getLast? hlast)) (by decide)

theorem intToken_passes : Reading intToken fun _ taken => Passes taken [] := by
  refine Reads.bind next_reads ?_
  rintro token _ ⟨rfl, -⟩
  split
  · rename_i n hlexeme
    refine Reads.ite (fun _ => .pure (passes_token (not_suffix_when ?_))) fun _ => .failure
    rw [hlexeme]
    exact numeral_last n []
  · exact .failure

/-- Any number of parts that pass. -/
theorem many_passes {p : Parse α} (hp : Reading p fun _ taken => Passes taken []) (fuel : Nat) :
    Reading (many p fuel) fun _ taken => Passes taken [] :=
  many_reads hp .nil (fun _ _ _ _ ha has => ha.append has) fuel

theorem many_soft {p : Parse α} (hp : Reading p fun _ taken => Soft taken) (fuel : Nat) :
    Reading (many p fuel) fun _ taken => Soft taken :=
  many_reads hp soft_nil (fun _ _ _ _ ha has => ha.append has) fuel

theorem literal_passes : ∀ fuel, Reading (literal fuel) fun _ taken => Passes taken []
  | 0 => .failure
  | fuel + 1 => by
    refine Reads.bind next_reads ?_
    rintro token _ ⟨rfl, -⟩
    dsimp only
    split
    · rename_i s hlexeme
      refine .pure (passes_token (not_suffix_when ?_))
      rw [hlexeme, Lexeme.text, Quoted.text, List.getLast?_concat]
      cases s.quote <;> decide
    · rename_i n hlexeme
      refine Reads.ite (fun _ => .pure (passes_token (not_suffix_when ?_))) fun _ => .failure
      rw [hlexeme]
      exact numeral_last n []
    · rename_i whole fraction hlexeme
      refine Reads.ite (fun _ => .pure (passes_token (not_suffix_when ?_))) fun _ => .failure
      rw [hlexeme, Lexeme.text, List.append_cons]
      exact numeral_last fraction _
    · rename_i kind text hlexeme
      have hpasses : ∀ {w : Text}, text = w → ¬("when" : Text) <:+ w → Passes [token] [] := by
        rintro w rfl hw
        exact passes_token fun hends => hw (by rwa [Token.EndsWhen, hlexeme] at hends)
      refine Reads.ite (fun htext => .pure (hpasses htext (by decide))) fun _ => ?_
      refine Reads.ite (fun htext => .pure (hpasses htext (by decide))) fun _ => ?_
      refine Reads.ite (fun htext => ?_) fun _ => Reads.ite (fun htext => ?_) fun _ => .failure
      · refine Reads.bind (many_passes (literal_passes fuel) fuel) fun items taken hitems => ?_
        refine Reads.bind (keyword_passes (by decide)) fun closing last hclosing => .pure ?_
        simpa using ((hpasses htext (by decide)).append hitems).append hclosing.2
      · refine Reads.bind (many_passes ?_ fuel) fun items taken hitems => ?_
        · refine Reads.bind (word_soft (by decide)) fun key before hkey => ?_
          refine Reads.bind (keyword_soft (by decide) (by decide)) fun colon middle hmiddle => ?_
          obtain ⟨hne, hcolon, hsoft⟩ := hmiddle
          refine Reads.bind (literal_passes fuel) fun value after hvalue => .pure ?_
          have hentry := (hkey.close hcolon hne hsoft.leads).append hvalue
          simpa using hentry
        · refine Reads.bind (keyword_passes (by decide)) fun closing last hclosing => .pure ?_
          simpa using ((hpasses htext (by decide)).append hitems).append hclosing.2

theorem argValue_reads (fuel : Nat) : Reading (argValue fuel) fun _ taken => Soft taken ∨ Passes taken [] := by
  have hword : ∀ {kind : WordKind} {make : Text → ArgValue Written}, kind ≠ .braces →
      Reading (do return make (← word kind)) fun _ taken => Soft taken ∨ Passes taken [] := by
    intro kind make hkind
    refine Reads.bind (word_soft hkind) fun text taken hsoft => .pure (.inl ?_)
    rwa [List.append_nil]
  refine Reads.orElse (hword (by decide)) (Reads.orElse (hword (by decide)) (Reads.orElse (hword (by decide)) ?_))
  refine Reads.bind (literal_passes fuel) fun value taken hpasses => .pure (.inr ?_)
  rwa [List.append_nil]

theorem stepArg_soft (fuel : Nat) : Reading (stepArg fuel) fun _ taken => Soft taken := by
  refine Reads.bind (word_soft (by decide)) fun name before hname => ?_
  refine Reads.bind (keyword_soft (by decide) (by decide)) fun colon middle ⟨hne, hcolon, hsoft⟩ => ?_
  refine Reads.bind (argValue_reads fuel) fun value after hvalue => .pure ?_
  rw [List.append_nil]
  have hlabel : Soft (before ++ middle) := hname.append hsoft
  rcases hvalue with hvalue | hvalue
  · simpa using hlabel.append hvalue
  · have hpasses := (hname.close hcolon hne hsoft.leads).append hvalue
    refine Passes.soft (by simpa using hpasses) fun first hfirst => ?_
    refine hlabel.leads first ?_
    cases before with
    | nil =>
      cases middle with
      | nil => exact absurd rfl hne
      | cons x middle => exact hfirst
    | cons x before => exact hfirst

theorem orMissing_soft {p : Parse Text} (hp : Reading p fun _ taken => Soft taken) :
    Reading (orMissing p) fun _ taken => Soft taken :=
  Reads.orElse hp (.pure soft_nil)

/-- A keyword and what comes after it. -/
theorem keyword_then_soft {text : Text} {p : Parse α} (h : ¬("when" : Text) <:+ text) (hopen : text ≠ [0x7B])
    (hp : Reading p fun _ taken => Soft taken) :
    Reading (do let _ ← keyword text; p) fun _ taken => Soft taken :=
  Reads.bind (keyword_soft h hopen) fun _ _ hbefore => hp.mono fun _ _ htaken => hbefore.2.2.append htaken

theorem invocation_soft (fuel : Nat) (arrowed : Bool) :
    Reading (invocation fuel arrowed) fun _ taken => Soft taken := by
  refine Reads.bind (Reads.get fun _ => rfl : Reading get fun _ taken => taken = []) ?_
  rintro tokens _ rfl
  refine Reads.bind (orMissing_soft ?_) fun bindName a ha => ?_
  · refine Reads.bind (word_soft (by decide)) fun name taken hname => ?_
    refine Reads.bind (keyword_soft (by decide) (by decide)) fun equals more hequals => .pure ?_
    simpa using hname.append hequals.2.2
  refine Reads.bind (word_soft (by decide)) fun verb b hb => ?_
  refine Reads.bind (keyword_soft (by decide) (by decide)) fun opening c hc => ?_
  refine Reads.bind (Q := fun _ taken => Soft taken) ?_ fun first d hd => ?_
  · refine Reads.orElse (Reads.bind (stepArg_soft fuel) fun arg taken harg => .pure ?_) (.pure soft_nil)
    rwa [List.append_nil]
  refine Reads.bind (many_soft (keyword_then_soft (by decide) (by decide) (stepArg_soft fuel)) fuel) fun others e he => ?_
  refine Reads.bind (keyword_soft (by decide) (by decide)) fun closing f hf => ?_
  have hall : ∀ g, Soft g → Soft ([] ++ (a ++ (b ++ (c ++ (d ++ (e ++ (f ++ (g ++ [])))))))) := by
    intro g hg
    simpa using ((((((ha.append hb).append hc.2.2).append hd).append he).append hf.2.2).append hg)
  refine Reads.ite (fun _ => ?_) fun _ => .bind (.pure soft_nil) fun arrow g hg => .pure (hall g hg)
  refine Reads.bind (orMissing_soft (keyword_then_soft (by decide) (by decide) (word_soft (by decide)))) fun arrow g hg => ?_
  exact .pure (hall g hg)

/-- What stands between braces after a word that is not the one before predicates. -/
theorem block_passes {name : Text} (hname : ¬("when" : Text) <:+ name) {p : Parse α}
    (hp : Reading p fun _ taken => Soft taken) (fuel : Nat) : Reading (block fuel name p) fun _ taken => Passes taken [] := by
  refine Reads.bind (keyword_passes hname) fun word a ha => ?_
  refine Reads.bind (keyword_passes (by decide)) fun opening b hb => ?_
  refine Reads.bind (many_soft hp fuel) fun items c hc => ?_
  refine Reads.bind (keyword_soft (by decide) (by decide)) fun closing d ⟨hne, hd, hsoft⟩ => .pure ?_
  have := (ha.2.append hb.2).append (hc.close hd hne hsoft.leads)
  simpa using this

theorem whenBlock_passes : Reading whenBlock fun braces taken => Passes taken [braces] := by
  refine Reads.bind (keyword_reads "when") ?_
  rintro word _ ⟨rfl, ⟨t, rest, hfront⟩, hword⟩
  refine Reads.bind (keyword_reads [0x7B]) ?_
  rintro opening _ ⟨rfl, ⟨t', rest', hfront'⟩, hopens⟩
  refine Reads.bind (Reads.dropWhile fun _ h => h : Reading (modify (List.dropWhile Token.isPredicate))
    fun _ taken => ∀ token ∈ taken, token.isPredicate = true) fun _ inside hinside => ?_
  refine Reads.bind (keyword_reads [0x7D]) ?_
  rintro closing _ ⟨rfl, ⟨t'', rest'', hfront''⟩, hcloses⟩
  refine .pure fun rest more hmore => ?_
  have hblock := Blocks.block (hfront.when hword) (hfront'.brace (.inl rfl) hopens) hinside
    (hfront''.brace (.inr rfl) hcloses) hmore
  simpa using hblock

/-! ### Declarations -/

/-- What is declared at a position: its tokens start there, and these are the predicates among them. -/
structure DeclaredAt (pos : Position) (places : List Braces) (taken : List Token) : Prop where
  first : taken.head?.map (·.pos) = some pos
  passes : Passes taken places

theorem header_reads {dialect : Text} (h : ¬("when" : Text) <:+ dialect) :
    Reading (header dialect) fun x taken => DeclaredAt x.1 [] taken := by
  refine Reads.bind (keyword_passes h) ?_
  rintro start _ ⟨rfl, ha⟩
  refine Reads.bind stringToken_passes fun name b hb => ?_
  refine Reads.bind (keyword_passes (by decide)) fun priority c hc => ?_
  refine Reads.bind intToken_passes fun value d hd => ?_
  refine Reads.bind (keyword_passes (by decide)) fun opening e he => .pure ⟨rfl, ?_⟩
  simpa using (((ha.append hb).append hc.2).append hd).append he.2

theorem DeclaredAt.append {pos : Position} {x y : List Braces} {a b : List Token} (ha : DeclaredAt pos x a)
    (hb : Passes b y) : DeclaredAt pos (x ++ y) (a ++ b) where
  first := by
    cases a with
    | nil => cases ha.first
    | cons token a => exact ha.first
  passes := ha.passes.append hb

theorem whenThenBlock_passes (fuel : Nat) :
    Reading (whenThenBlock fuel) fun b taken => Passes taken [b.braces] := by
  refine Reads.bind whenBlock_passes fun braces a ha => ?_
  refine Reads.bind (block_passes (by decide) (invocation_soft fuel false) fuel) fun effects b hb => .pure ?_
  simpa using ha.append hb

theorem ruleDecl_reads (fuel : Nat) :
    Reading (ruleDecl fuel) fun rule taken => DeclaredAt rule.pos (rule.blocks.map (·.braces)) taken := by
  refine Reads.bind (header_reads (by decide)) fun ⟨pos, name, priority⟩ a ha => ?_
  refine Reads.bind (many_reads (M := fun blocks taken => Passes taken (blocks.map WhenThenBlock.braces))
    (whenThenBlock_passes fuel) .nil (fun _ _ _ _ hfirst hothers => hfirst.append hothers) fuel) fun blocks b hb => ?_
  refine Reads.bind (keyword_passes (by decide)) fun closing c hc => .pure ?_
  simpa using (ha.append hb).append hc.2

theorem flowDecl_reads (fuel : Nat) :
    Reading (flowDecl fuel) fun flow taken => DeclaredAt flow.pos [flow.braces] taken := by
  refine Reads.bind (header_reads (by decide)) fun ⟨pos, name, priority⟩ a ha => ?_
  refine Reads.bind whenBlock_passes fun braces b hb => ?_
  refine Reads.bind (block_passes (by decide) (invocation_soft fuel true) fuel) fun steps c hc => ?_
  refine Reads.bind (keyword_passes (by decide)) fun closing d hd => .pure ?_
  simpa using ((ha.append hb).append hc).append hd.2

section

variable {N L : Type}

/-- Where the predicates of a tree stand. -/
def File.places (file : File N L) : List Braces :=
  file.rules.flatMap (fun rule => rule.blocks.map (·.braces)) ++ file.flows.map (·.braces)

/-- Where the declarations of a tree stand. -/
def File.positions (file : File N L) : List Position := file.rules.map (·.pos) ++ file.flows.map (·.pos)

end

/-- Declarations one after another: they stand where tokens do, in their order. -/
structure Declared (positions : List Position) (places : List Braces) (taken : List Token) : Prop where
  positions : positions.Sublist (taken.map (·.pos))
  passes : Passes taken places

theorem Declared.append {p q : List Position} {x y : List Braces} {a b : List Token} (ha : Declared p x a)
    (hb : Declared q y b) : Declared (p ++ q) (x ++ y) (a ++ b) where
  positions := by
    rw [List.map_append]
    exact ha.positions.append hb.positions
  passes := ha.passes.append hb.passes

theorem DeclaredAt.declared {pos : Position} {places : List Braces} {taken : List Token} (h : DeclaredAt pos places taken) :
    Declared [pos] places taken where
  positions := by
    obtain ⟨token, hhead, rfl⟩ := Option.map_eq_some_iff.1 h.first
    exact List.singleton_sublist.2 (List.mem_map_of_mem (List.mem_of_mem_head? hhead))
  passes := h.passes

theorem fileDecl_reads (fuel : Nat) :
    Reading (fileDecl fuel) fun file taken => Declared file.positions file.places taken := by
  refine Reads.bind (many_reads (M := fun rules taken => Declared (rules.map (·.pos))
    (rules.flatMap fun rule => rule.blocks.map (·.braces)) taken) (ruleDecl_reads fuel) ⟨.slnil, .nil⟩ ?_ fuel) ?_
  · exact fun _ _ _ _ hrule hrules => hrule.declared.append hrules
  intro rules a ha
  refine Reads.bind (many_reads (M := fun flows taken => Declared (flows.map (·.pos)) (flows.map (·.braces)) taken)
    (flowDecl_reads fuel) ⟨.slnil, .nil⟩ ?_ fuel) ?_
  · exact fun _ _ _ _ hflow hflows => hflow.declared.append hflows
  intro flows b hb
  refine .pure ?_
  rw [List.append_nil]
  exact ha.append hb

/-- A source that parses: its tokens, where its predicates stand among them, and where its declarations do. -/
theorem parse_blocks {source : Text} {file : File Quoted Written} (h : parse source = some file) :
    ∃ tokens, lex source = some tokens ∧ Blocks tokens file.places ∧
      file.positions.Sublist (tokens.map (·.pos)) := by
  unfold parse at h
  split at h
  · cases h
  rename_i tokens hlex
  split at h
  · rename_i file' hfile
    cases h
    obtain ⟨all, hall, hfilter⟩ := lexes_of_lex hlex
    have hlexed : ∀ token ∈ tokens, token.Lexed := fun token hm =>
      hall.lexed token (List.mem_of_mem_filter (hfilter ▸ hm))
    obtain ⟨taken, htaken, hdeclared⟩ := fileDecl_reads tokens.length tokens file [] hlexed hfile
    rw [List.append_nil] at htaken
    subst htaken
    refine ⟨tokens, hlex, ?_, hdeclared.positions⟩
    simpa using hdeclared.passes .nil
  · cases h

/-- The declarations of a source are in the order of their positions. -/
theorem parse_ordered {source : Text} {file : File Quoted Written} (h : parse source = some file) :
    file.positions.Pairwise Position.Before := by
  obtain ⟨tokens, hlex, -, hsub⟩ := parse_blocks h
  obtain ⟨all, hall, rfl⟩ := lexes_of_lex hlex
  refine List.Pairwise.sublist hsub ?_
  exact List.pairwise_map.2 (hall.pairwise.2.filter _)

end Compiler

end Effectus

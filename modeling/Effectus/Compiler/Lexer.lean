import Effectus.Lib.JsonNumber

/-!
The tokens of rule sources. The lexer's rules are tried in their order at each position, and the first whose pattern
matches there takes the longest text the pattern's own preferences give it. Numbers and strings are kept by their parts.
-/

namespace Effectus

namespace Compiler

inductive Quote where
  | double
  | single
  deriving DecidableEq

def Quote.byte : Quote → UInt8
  | .double => 0x22
  | .single => 0x27

/-- A string token: what stands between its quotes. Without a backslash in it, it ends at the first quote of its kind. -/
structure Quoted where
  quote : Quote
  body : Text
  closed : 0x5C ∉ body → quote.byte ∉ body

def Quoted.text (s : Quoted) : Text := s.quote.byte :: s.body ++ [s.quote.byte]

/-- A run of digits. -/
structure Numeral where
  digits : Text
  nonempty : digits ≠ []
  isDigits : ∀ b ∈ digits, Text.isDigit b = true

/-- The value of octal digits after `acc`. -/
def octalValue? (acc : Nat) : Text → Option Nat
  | [] => some acc
  | b :: t => if b < 0x38 then octalValue? (8 * acc + (b - 0x30).toNat) t else none

/-- The number the parser captures, by `strconv.ParseInt` with base 0: digits after a leading zero are octal. -/
def Numeral.value? (n : Numeral) : Option Nat :=
  match n.digits with
  | 0x30 :: rest => octalValue? 0 rest
  | digits => some (Text.digitsValue 0 digits)

def Numeral.value (n : Numeral) : Nat := n.value?.getD 0

/-- The number is one, and fits the field it is captured in. -/
def Numeral.isInt (n : Numeral) : Bool := n.value?.any (· < 2 ^ 63)

inductive WordKind where
  | comment
  | whitespace
  | logicalOp
  | arrow
  | operator
  | varRef
  | factPath
  | ident
  | punct
  | braces
  deriving DecidableEq

inductive Lexeme where
  | string (s : Quoted)
  | int (n : Numeral)
  | float (whole fraction : Numeral)
  | word (kind : WordKind) (text : Text)

def Lexeme.text : Lexeme → Text
  | .string s => s.text
  | .int n => n.digits
  | .float whole fraction => whole.digits ++ 0x2E :: fraction.digits
  | .word _ text => text

structure Position where
  offset : Nat
  line : Nat
  column : Nat
  deriving DecidableEq

structure Token where
  lexeme : Lexeme
  pos : Position

/-! ### Patterns -/

/-- A rule: the token at the front and the rest, if its pattern matches there. -/
abbrev LexRule := Text → Option (Lexeme × Text)

def isWordStart (b : UInt8) : Bool := b == 0x5F || (0x61 ≤ b && b ≤ 0x7A) || (0x41 ≤ b && b ≤ 0x5A)

def isWordPart (b : UInt8) : Bool := isWordStart b || Text.isDigit b

/-- The bytes `\s` stands for. -/
def isBlank (b : UInt8) : Bool := b == 0x09 || b == 0x0A || b == 0x0C || b == 0x0D || b == 0x20

/-- `//[^\n]*|#[^\n]*` -/
def lexComment : LexRule := fun t =>
  if ([0x2F, 0x2F] : Text).isPrefixOf t ∨ ([0x23] : Text).isPrefixOf t then
    some (.word .comment (t.takeWhile (· ≠ 0x0A)), t.dropWhile (· ≠ 0x0A))
  else none

/-- `\s+` -/
def lexWhitespace : LexRule := fun t =>
  if (t.takeWhile isBlank).isEmpty then none
  else some (.word .whitespace (t.takeWhile isBlank), t.dropWhile isBlank)

/-- `\d+` -/
def scanNumeral (t : Text) : Option (Numeral × Text) :=
  if h : t.takeWhile Text.isDigit ≠ [] then
    some (⟨t.takeWhile Text.isDigit, h, fun _ hb => List.mem_takeWhile_imp hb⟩, t.dropWhile Text.isDigit)
  else none

/-- `\d+\.\d+` -/
def lexFloat : LexRule := fun t =>
  match scanNumeral t with
  | some (whole, 0x2E :: rest) => (scanNumeral rest).map fun x => (.float whole x.1, x.2)
  | _ => none

def lexInt : LexRule := fun t => (scanNumeral t).map fun x => (.int x.1, x.2)

/-- `(?:\\.|[^"])*"` or the same with the other quote: what comes before the closing quote, and the rest. An escape is
tried before a lone backslash, which is taken when the string would not end otherwise. -/
def closing (quote : UInt8) : Text → Option (Text × Text)
  | [] => none
  | [b] => if b = quote then some ([], []) else none
  | b :: c :: t =>
    if b = quote then some ([], c :: t)
    else
      match (if b = 0x5C ∧ c ≠ 0x0A then closing quote t else none) with
      | some (body, rest) => some (b :: c :: body, rest)
      | none =>
        match closing quote (c :: t) with
        | some (body, rest) => some (b :: body, rest)
        | none => none

/-- Only an escape carries a quote past the first one. -/
theorem closing_body {quote : UInt8} : ∀ {t body rest : Text}, closing quote t = some (body, rest) →
    0x5C ∉ body → quote ∉ body
  | [], _, _, h, _ => by cases h
  | [b], body, rest, h, _ => by
    rw [closing] at h
    split at h
    · cases h
      exact List.not_mem_nil
    · cases h
  | b :: c :: t, body, rest, h, hplain => by
    rw [closing] at h
    split at h
    · cases h
      exact List.not_mem_nil
    rename_i hb
    split at h
    · rename_i found hfound
      cases h
      split at hfound
      · rename_i hescape
        exact absurd (List.mem_cons.2 (.inl hescape.1.symm)) hplain
      · cases hfound
    · split at h
      · rename_i found hfound
        cases h
        have hrest := closing_body hfound fun hm => hplain (List.mem_cons_of_mem _ hm)
        exact fun hm => (List.mem_cons.1 hm).elim (fun heq => hb heq.symm) hrest
      · cases h

/-- A string in quotes of one kind. -/
def lexQuoted (quote : Quote) : LexRule
  | [] => none
  | b :: t =>
    if b = quote.byte then
      match h : closing quote.byte t with
      | some (body, rest) => some (.string ⟨quote, body, closing_body h⟩, rest)
      | none => none
    else none

def lexString : LexRule := fun t => (lexQuoted .double t).or (lexQuoted .single t)

/-- The first of these words that stands at the front. -/
def lexWord (kind : WordKind) (words : List Text) : LexRule := fun t =>
  (words.find? (·.isPrefixOf t)).map fun w => (.word kind w, t.drop w.length)

def lexLogicalOp : LexRule := lexWord .logicalOp ["&&", "||", "!"]

def lexArrow : LexRule := lexWord .arrow ["->"]

def lexOperator : LexRule :=
  lexWord .operator ["==", "!=", ">=", "<=", ">", "<", "+", "-", "*", "/", "%"]

/-- `[a-zA-Z_][a-zA-Z0-9_]*` -/
def scanIdent : Text → Option (Text × Text)
  | [] => none
  | b :: t => if isWordStart b then some (b :: t.takeWhile isWordPart, t.dropWhile isWordPart) else none

/-- `\$[a-zA-Z_][a-zA-Z0-9_]*` -/
def lexVarRef : LexRule
  | 0x24 :: t => (scanIdent t).map fun x => (.word .varRef (0x24 :: x.1), x.2)
  | _ => none

/-- `\.[a-zA-Z_][a-zA-Z0-9_]*|\[\d+\]` -/
def scanSelector : Text → Option (Text × Text)
  | 0x2E :: t => (scanIdent t).map fun x => (0x2E :: x.1, x.2)
  | 0x5B :: t =>
    match scanNumeral t with
    | some (index, 0x5D :: rest) => some (0x5B :: index.digits ++ [0x5D], rest)
    | _ => none
  | _ => none

/-- As many selectors as there are, at most `fuel`. -/
def scanSelectors : Nat → Text → Text × Text
  | 0, t => ([], t)
  | fuel + 1, t =>
    match scanSelector t with
    | none => ([], t)
    | some (selector, rest) =>
      let (more, rest) := scanSelectors fuel rest
      (selector ++ more, rest)

/-- `[a-zA-Z_][a-zA-Z0-9_]*(?:\.[a-zA-Z_][a-zA-Z0-9_]*|\[\d+\])+` -/
def lexFactPath : LexRule := fun t =>
  match scanIdent t with
  | none => none
  | some (name, rest) =>
    match scanSelectors rest.length rest with
    | ([], _) => none
    | (selectors, rest) => some (.word .factPath (name ++ selectors), rest)

def lexIdent : LexRule := fun t => (scanIdent t).map fun x => (.word .ident x.1, x.2)

def lexPunct : LexRule := lexWord .punct ["(", ")", ",", "[", "]", ".", ":", "?", "="]

def lexBraces : LexRule := lexWord .braces [[0x7B], [0x7D]]

/-- The rules of the state `Root`. -/
def lexRules : List LexRule :=
  [lexComment, lexWhitespace, lexFloat, lexInt, lexString, lexLogicalOp, lexArrow, lexOperator, lexVarRef, lexFactPath,
    lexIdent, lexPunct, lexBraces]

/-! ### Tokens -/

/-- The position after a text: columns count runes. -/
def Position.advance (pos : Position) : Text → Position
  | [] => pos
  | b :: t =>
    if b = 0x0A then advance ⟨pos.offset + 1, pos.line + 1, 1⟩ t
    else if 0x80 ≤ b && b ≤ 0xBF then advance ⟨pos.offset + 1, pos.line, pos.column⟩ t
    else advance ⟨pos.offset + 1, pos.line, pos.column + 1⟩ t

/-- All tokens, at most `fuel`. Every rule takes a byte or more. -/
def lexFrom : Nat → Position → Text → Option (List Token)
  | _, _, [] => some []
  | 0, _, _ :: _ => none
  | fuel + 1, pos, t =>
    match lexRules.findSome? (· t) with
    | none => none
    | some (lexeme, rest) => (lexFrom fuel (pos.advance lexeme.text) rest).map (⟨lexeme, pos⟩ :: ·)

def Token.isElided (token : Token) : Bool :=
  match token.lexeme with
  | .word .comment _ | .word .whitespace _ => true
  | _ => false

/-- The tokens the parser reads. -/
def lex (source : Text) : Option (List Token) :=
  (lexFrom source.length ⟨0, 1, 1⟩ source).map (List.filter fun token => !token.isElided)

example : (lex "a.b[0] = 'x' 1.5 1. != // end").map (List.map (·.lexeme.text)) =
    some (["a.b[0]", "=", "'x'", "1.5", "1", ".", "!", "="] : List Text) := by decide

end Compiler

end Effectus

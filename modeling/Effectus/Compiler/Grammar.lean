import Effectus.Compiler.Lexer
import Effectus.Lib.Float64

/-!
The grammar of rule sources. A tree is read off the tokens by ordered choice: an optional part or a repetition goes on
as long as it matches. What the tree holds of names and literals is a parameter: the tokens they are written with, or
the fields they are captured in.
-/

namespace Effectus

namespace Compiler

/-! ### Trees -/

/-- The value of an argument; one of the three is always set. -/
inductive ArgValue (L : Type) where
  | varRef (name : Text)
  | pathExpr (path : Text)
  | literal (value : L)

structure StepArg (L : Type) where
  name : Text
  value : ArgValue L

/-- An effect of a rule or a step of a flow. An effect has no arrow; a binding that is not there is empty. -/
structure Invocation (L : Type) where
  pos : Position
  bindName : Text
  verb : Text
  args : List (StepArg L)
  arrow : Text

/-- Where a predicate stands: the offsets after its opening brace and of its closing one. -/
structure Braces where
  opened : Nat
  closed : Nat
  deriving DecidableEq

/-- A predicate is kept as its text. -/
structure WhenThenBlock (L : Type) where
  braces : Braces
  when : Text
  effects : List (Invocation L)

structure Rule (N L : Type) where
  pos : Position
  name : N
  priority : Int
  blocks : List (WhenThenBlock L)

structure Flow (N L : Type) where
  pos : Position
  name : N
  priority : Int
  braces : Braces
  when : Text
  steps : List (Invocation L)

structure File (N L : Type) where
  rules : List (Rule N L)
  flows : List (Flow N L)

section

variable {L M N K : Type}

def ArgValue.map (f : L → M) : ArgValue L → ArgValue M
  | .varRef name => .varRef name
  | .pathExpr path => .pathExpr path
  | .literal value => .literal (f value)

def StepArg.map (f : L → M) (arg : StepArg L) : StepArg M := ⟨arg.name, arg.value.map f⟩

def Invocation.map (f : L → M) (x : Invocation L) : Invocation M := { x with args := x.args.map (StepArg.map f) }

def WhenThenBlock.map (f : L → M) (block : WhenThenBlock L) : WhenThenBlock M :=
  { block with effects := block.effects.map (Invocation.map f) }

def Rule.map (g : N → K) (f : L → M) (rule : Rule N L) : Rule K M :=
  { rule with name := g rule.name, blocks := rule.blocks.map (WhenThenBlock.map f) }

def Flow.map (g : N → K) (f : L → M) (flow : Flow N L) : Flow K M :=
  { flow with name := g flow.name, steps := flow.steps.map (Invocation.map f) }

def File.map (g : N → K) (f : L → M) (file : File N L) : File K M :=
  ⟨file.rules.map (Rule.map g f), file.flows.map (Flow.map g f)⟩

end

/-! ### Literals -/

/-- The tokens of a literal. -/
inductive Written where
  | string (s : Quoted)
  | int (n : Numeral)
  | float (whole fraction : Numeral)
  | bool (b : Bool)
  | list (items : List Written)
  | map (entries : List (Text × Written))

/-- A number with a point, read as the nearest floating-point number. -/
def decimalValue (whole fraction : Numeral) : Float64 :=
  .ofRat false (NumberParts.absValue ⟨false, whole.digits, fraction.digits, none⟩)

/-- The fields of a parsed literal. An empty list or map leaves its field unset. -/
inductive AstLiteral where
  | mk (string : Option Text) (int : Option Int64) (float : Option Float64) (bool : Option Bool) (list : List AstLiteral)
    (map : List (Text × AstLiteral))

mutual

/-- What the fields capture: the text of a string token, the value of a number, the elements of a list or a map. A boolean
field is set to true when one of its words matches, whichever it is. -/
def Written.capture : Written → AstLiteral
  | .string s => .mk (some s.text) none none none [] []
  | .int n => .mk none (some (.ofNat n.value)) none none [] []
  | .float whole fraction => .mk none none (some (decimalValue whole fraction)) none [] []
  | .bool _ => .mk none none none (some true) [] []
  | .list items => .mk none none none none (captureItems items) []
  | .map entries => .mk none none none none [] (captureEntries entries)

def captureItems : List Written → List AstLiteral
  | [] => []
  | item :: rest => item.capture :: captureItems rest

def captureEntries : List (Text × Written) → List (Text × AstLiteral)
  | [] => []
  | (key, value) :: rest => (key, value.capture) :: captureEntries rest

end

/-! ### Parsing -/

/-- A parser takes tokens from the front, or does not match. -/
abbrev Parse := StateT (List Token) Option

def next : Parse Token := fun
  | [] => none
  | token :: rest => some (token, rest)

/-- A token with this text, of any kind. -/
def keyword (text : Text) : Parse Token := do
  let token ← next
  if token.lexeme.text = text then return token else failure

/-- A token of this kind. -/
def word (kind : WordKind) : Parse Text := do
  match (← next).lexeme with
  | .word kind' text => if kind' = kind then return text else failure
  | _ => failure

def stringToken : Parse Quoted := do
  match (← next).lexeme with
  | .string s => return s
  | _ => failure

/-- A number that can be captured. -/
def intToken : Parse Numeral := do
  match (← next).lexeme with
  | .int n => if n.isInt then return n else failure
  | _ => failure

/-- As often as it matches, at most `fuel` times. -/
def many {α : Type} (p : Parse α) : Nat → Parse (List α)
  | 0 => return []
  | fuel + 1 => (do
      let a ← p
      let rest ← many p fuel
      return a :: rest) <|> pure []

/-- `Literal`, with at most `fuel` tokens. Its first token decides which one it is. -/
def literal : Nat → Parse Written
  | 0 => failure
  | fuel + 1 => do
    let lexeme := (← next).lexeme
    match lexeme with
    | .string s => return .string s
    | .int n => if n.isInt then return .int n else failure
    | .float whole fraction =>
      if (decimalValue whole fraction).isFinite then return .float whole fraction else failure
    | .word _ text =>
      if text = ("true" : Text) then return .bool true
      else if text = ("false" : Text) then return .bool false
      else if text = ("[" : Text) then
        let items ← many (literal fuel) fuel
        let _ ← keyword "]"
        return .list items
      else if text = [0x7B] then
        let entries ← many (do
          let key ← word .ident
          let _ ← keyword ":"
          let value ← literal fuel
          return (key, value)) fuel
        let _ ← keyword [0x7D]
        return .map entries
      else failure

section

variable (fuel : Nat)

def argValue : Parse (ArgValue Written) :=
  (do return .varRef (← word .varRef)) <|> (do return .pathExpr (← word .factPath)) <|>
    (do return .pathExpr (← word .ident)) <|> (do return .literal (← literal fuel))

def stepArg : Parse (StepArg Written) := do
  let name ← word .ident
  let _ ← keyword ":"
  let value ← argValue fuel
  return ⟨name, value⟩

/-- A part that may be missing. -/
def orMissing (p : Parse Text) : Parse Text := p <|> pure []

/-- `Effect`, and `Step` if an arrow may follow. -/
def invocation (arrowed : Bool) : Parse (Invocation Written) := do
  let pos := ((← get).head?.map (·.pos)).getD ⟨0, 0, 0⟩
  let bindName ← orMissing (do
    let name ← word .ident
    let _ ← keyword "="
    return name)
  let verb ← word .ident
  let _ ← keyword "("
  let first ← (do return [← stepArg fuel]) <|> pure []
  let others ← many (do
    let _ ← keyword ","
    stepArg fuel) fuel
  let _ ← keyword ")"
  let arrow ← if arrowed then orMissing (do
      let _ ← keyword "->"
      word .ident) else pure []
  return ⟨pos, bindName, verb, first ++ others, arrow⟩

/-- A token a predicate may hold. -/
def Token.isPredicate (token : Token) : Bool :=
  match token.lexeme with
  | .word .braces _ | .word .arrow _ => false
  | _ => true

/-- `when { ... }`. The text of the predicate is taken from the source later. -/
def whenBlock : Parse Braces := do
  let _ ← keyword "when"
  let opening ← keyword [0x7B]
  modify (List.dropWhile Token.isPredicate)
  let closing ← keyword [0x7D]
  return ⟨opening.pos.offset + 1, closing.pos.offset⟩

/-- What stands between braces after this word. -/
def block {α : Type} (name : Text) (p : Parse α) : Parse (List α) := do
  let _ ← keyword name
  let _ ← keyword [0x7B]
  let items ← many p fuel
  let _ ← keyword [0x7D]
  return items

def whenThenBlock : Parse (WhenThenBlock Written) := do
  let braces ← whenBlock
  let effects ← block fuel "then" (invocation fuel false)
  return ⟨braces, [], effects⟩

/-- `rule` or `flow`, with its name and its priority, up to the brace. -/
def header (dialect : Text) : Parse (Position × Quoted × Int) := do
  let start ← keyword dialect
  let name ← stringToken
  let _ ← keyword "priority"
  let priority ← intToken
  let _ ← keyword [0x7B]
  return (start.pos, name, priority.value)

def ruleDecl : Parse (Rule Quoted Written) := do
  let (pos, name, priority) ← header "rule"
  let blocks ← many (whenThenBlock fuel) fuel
  let _ ← keyword [0x7D]
  return ⟨pos, name, priority, blocks⟩

def flowDecl : Parse (Flow Quoted Written) := do
  let (pos, name, priority) ← header "flow"
  let braces ← whenBlock
  let steps ← block fuel "steps" (invocation fuel true)
  let _ ← keyword [0x7D]
  return ⟨pos, name, priority, braces, [], steps⟩

def fileDecl : Parse (File Quoted Written) := do
  let rules ← many (ruleDecl fuel) fuel
  let flows ← many (flowDecl fuel) fuel
  return ⟨rules, flows⟩

end

/-- The tree of a source, all tokens of which belong to it. -/
def parse (source : Text) : Option (File Quoted Written) :=
  match lex source with
  | none => none
  | some tokens =>
    match fileDecl tokens.length tokens with
    | some (file, []) => some file
    | _ => none

end Compiler

end Effectus

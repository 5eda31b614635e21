import Effectus.Bundle.Source
import Effectus.Compiler.Grammar
import Effectus.Lib.Fallible
import Effectus.Lib.Unquote

/-!
The compiler's front end: sources are parsed, predicates get their text back from the source, and names, literals and
bindings are normalized.
-/

namespace Effectus

namespace Compiler

open Fallible

/-! ### Predicate text -/

/-- What follows a quoted text; a backslash takes the next byte with it. -/
def skipQuotedSource (quote : UInt8) : Text → Text
  | [] => []
  | [_] => []
  | b :: c :: t =>
    if b = 0x5C then skipQuotedSource quote t
    else if b = quote then c :: t
    else skipQuotedSource quote (c :: t)

def skipSourceComment (data : Text) : Text := data.dropWhile (· ≠ 0x0A)

def startsComment (data : Text) : Bool := ([0x2F, 0x2F] : Text).isPrefixOf data || ([0x23] : Text).isPrefixOf data

/-- Blanks and comments, at most `fuel`. -/
def skipSourceTrivia : Nat → Text → Text
  | 0, data => data
  | fuel + 1, data =>
    match data with
    | [] => []
    | b :: t =>
      if b = 0x20 ∨ b = 0x09 ∨ b = 0x0D ∨ b = 0x0A then skipSourceTrivia fuel t
      else if startsComment data then skipSourceTrivia fuel (skipSourceComment data)
      else data

def isQuote (b : UInt8) : Bool := b == 0x22 || b == 0x27

/-- What follows the brace that closes this many open ones. -/
def closeBraces : Nat → Nat → Text → Option Text
  | 0, _, _ => none
  | fuel + 1, depth, data =>
    match data with
    | [] => none
    | b :: t =>
      if isQuote b then closeBraces fuel depth (skipQuotedSource b t)
      else if startsComment data then closeBraces fuel depth (skipSourceComment data)
      else if b = 0x7B then closeBraces fuel (depth + 1) t
      else if b = 0x7D then if depth ≤ 1 then some t else closeBraces fuel (depth - 1) t
      else closeBraces fuel depth t

/-- The texts between the braces after each word `when`, at most `fuel` steps of the scan. -/
def extractFrom : Nat → Text → Except Err (List Text)
  | 0, _ => .ok []
  | fuel + 1, data =>
    match data with
    | [] => .ok []
    | b :: t =>
      if isQuote b then extractFrom fuel (skipQuotedSource b t)
      else if startsComment data then extractFrom fuel (skipSourceComment data)
      else if isWordStart b = false then extractFrom fuel t
      else
        let rest := data.dropWhile isWordPart
        if data.takeWhile isWordPart ≠ ("when" : Text) then extractFrom fuel rest
        else
          match skipSourceTrivia rest.length rest with
          | 0x7B :: body =>
            match closeBraces (body.length + 1) 1 body with
            | none => .error (.new "unterminated when block")
            | some after => do
              let others ← extractFrom fuel after
              return body.take (body.length - after.length - 1) :: others
          | _ => extractFrom fuel rest

def extractWhenBlocks (data : Text) : Except Err (List Text) := extractFrom (data.length + 1) data

section

variable {N L : Type}

/-- The next expression of the source. -/
def nextExpression : StateT (List Text) (Except Err) Text := do
  match ← get with
  | [] => throw (.new "parsed AST contains more when blocks than source")
  | expression :: rest =>
    set rest
    return Text.trimSpace expression

def restoreBlock (block : WhenThenBlock L) : StateT (List Text) (Except Err) (WhenThenBlock L) := do
  return { block with when := ← nextExpression }

def restoreRule (rule : Rule N L) : StateT (List Text) (Except Err) (Rule N L) := do
  return { rule with blocks := ← rule.blocks.mapM restoreBlock }

def restoreFlow (flow : Flow N L) : StateT (List Text) (Except Err) (Flow N L) := do
  return { flow with when := ← nextExpression }

def restoreFile (file : File N L) : StateT (List Text) (Except Err) (File N L) := do
  let rules ← file.rules.mapM restoreRule
  let flows ← file.flows.mapM restoreFlow
  return ⟨rules, flows⟩

/-- Each predicate is the text between the braces of its own block, in the order of the source. -/
def restoreCheckedPredicateText (file : File N L) (data : Text) : Except Err (File N L) := do
  let expressions ← extractWhenBlocks data
  let (restored, left) ← (restoreFile file).run expressions
  if left ≠ [] then
    throw (.new (("found " : Text) ++ Text.ofInt expressions.length ++ (" when blocks in source and " : Text) ++
      Text.ofInt (expressions.length - left.length : Nat) ++ (" in parsed AST" : Text)))
  return restored

end

/-! ### Names and literals -/

/-- A token that is no literal of Go keeps its quotes. -/
def unquoteString (value : Text) : Text := (Text.unquote value).getD value

mutual

def normalizeASTLiteral : AstLiteral → AstLiteral
  | .mk string int float bool list map =>
    .mk (string.map unquoteString) int float bool (normalizeItems list) (normalizeEntries map)

def normalizeItems : List AstLiteral → List AstLiteral
  | [] => []
  | item :: rest => normalizeASTLiteral item :: normalizeItems rest

def normalizeEntries : List (Text × AstLiteral) → List (Text × AstLiteral)
  | [] => []
  | (key, value) :: rest => (key, normalizeASTLiteral value) :: normalizeEntries rest

end

def normalizeCheckedSourceAST (file : File Text AstLiteral) : File Text AstLiteral where
  rules := file.rules.map fun rule =>
    let rule := rule.map unquoteString normalizeASTLiteral
    { rule with blocks := rule.blocks.map fun block => { block with when := Text.trimSpace block.when } }
  flows := file.flows.map fun flow =>
    let flow := flow.map unquoteString normalizeASTLiteral
    { flow with when := Text.trimSpace flow.when }

/-- The name after an arrow is a binding like one before the verb. -/
def normalizeBinding {L : Type} (step : Invocation L) : Except Err (Invocation L) :=
  if step.arrow = [] then .ok step
  else if step.bindName ≠ [] then
    .error (.new (Text.ofInt step.pos.line ++ (":" : Text) ++ Text.ofInt step.pos.column ++
      (": step cannot use both prefix and arrow bindings" : Text)))
  else .ok { step with bindName := step.arrow, arrow := [] }

def normalizeFlow {N L : Type} (flow : Flow N L) : Except Err (Flow N L) := do
  return { flow with steps := ← flow.steps.mapM normalizeBinding }

def normalizeFlowBindings {N L : Type} (file : File N L) : Except Err (File N L) := do
  return { file with flows := ← file.flows.mapM normalizeFlow }

/-! ### Paths -/

/-- One more element of a path. -/
def pushElement (isRooted : Bool) (stack : List Text) (element : Text) : List Text :=
  if element = [] ∨ element = [0x2E] then stack
  else if element = [0x2E, 0x2E] then
    match stack with
    | [] => if isRooted then [] else [element]
    | top :: below => if top = [0x2E, 0x2E] then element :: stack else below
  else element :: stack

/-- `filepath.Clean`. -/
def cleanPath (path : Text) : Text :=
  let isRooted := ([0x2F] : Text).isPrefixOf path
  let stack := (pathElements path).foldl (pushElement isRooted) []
  let joined := List.intercalate [0x2F] stack.reverse
  if isRooted then 0x2F :: joined else if joined = [] then [0x2E] else joined

/-- `filepath.Ext`. -/
def pathExtension (path : Text) : Text :=
  let base := path.reverse.takeWhile (· ≠ 0x2F)
  if 0x2E ∈ base then 0x2E :: (base.takeWhile (· ≠ 0x2E)).reverse else []

def normalizeSourcePath (path : Text) : Except Err Text :=
  let path := Text.trimSpace path
  if path = [] then .error (.new "compile checked: source path is empty")
  else
    let path := cleanPath path
    if path = [0x2E] ∨ Text.hasPrefix path "../" ∨ path = [0x2E, 0x2E] then
      .error (.new (("compile checked: source path " : Text) ++ Text.quote path ++ (" escapes its source root" : Text)))
    else .ok path

/-! ### Sources -/

structure ParsedSource where
  path : Text
  file : File Text AstLiteral

/-- Parse one source. -/
def parseSource (path content : Text) : Except Err ParsedSource := do
  match parse content with
  | none => throw (.new (("compile front end: parse " : Text) ++ path))
  | some tree =>
    let labelled := fun err : Err => err.under (("compile front end: " : Text) ++ path)
    let file ← (restoreCheckedPredicateText (tree.map Quoted.text Written.capture) content).mapError labelled
    let file ← (normalizeFlowBindings (normalizeCheckedSourceAST file)).mapError labelled
    if pathExtension path = (".eff" : Text) ∧ file.flows ≠ [] then
      throw (.new (("compile front end: " : Text) ++ path ++ (" contains flow declarations" : Text)))
    if pathExtension path = (".effx" : Text) ∧ file.rules ≠ [] then
      throw (.new (("compile front end: " : Text) ++ path ++ (" contains list rule declarations" : Text)))
    return ⟨path, file⟩

/-- The sources that are left, after those with these paths. -/
def parseEach (seenPaths : List Text) : List Source → Except Err (List ParsedSource)
  | [] => .ok []
  | source :: rest => do
    let path ← normalizeSourcePath source.path
    if seenPaths.contains path then
      throw (.new (("compile front end: duplicate normalized source path " : Text) ++ Text.quote path))
    if pathExtension path ≠ (".eff" : Text) ∧ pathExtension path ≠ (".effx" : Text) then
      throw (.new (("compile front end: source " : Text) ++ Text.quote path ++ (" must use .eff or .effx" : Text)))
    let parsed ← parseSource path source.content
    let others ← parseEach (path :: seenPaths) rest
    return parsed :: others

def parseSources (sources : List Source) : Except Err (List ParsedSource) := do
  let parsed ← parseEach [] sources
  return parsed.insertionSort fun a b => Text.lt b.path a.path = false

end Compiler

end Effectus

import Effectus.IR.Artifact
import Effectus.Runtime.Facts

/-!
Predicates over facts. Each way an evaluation can fail is a constructor of its error, so that what a
checked predicate can run into is a statement about constructors.
-/

namespace Effectus

/-- How evaluation fails, with what its message names. -/
inductive EvalError where
  | missingFact (path : Text)
  | negationOverflow
  | arithmeticOverflow
  | moduloByZero
  | divisionByZero
  | floatingOverflow
  | invalidPattern
  | nilExpression
  | unsetExpression
  | nilLiteral
  | unsetLiteral
  | call
  | notOperand (type : Text)
  | negateOperand (type : Text)
  | unaryOperator
  | binaryOperator
  | logicalOperands
  | stringOperands
  | stringAdd
  | arithmeticOperands
  | moduloOperands
  | stringContains
  | containsOperand (type : Text)
  | comparisonDiffers
  | comparisonOperands
  | predicateType (type : Text)
  deriving DecidableEq

def EvalError.text : EvalError → Text
  | .missingFact path =>
    Sentinel.invalidExecuteRequest.text ++ (": fact " : Text) ++ Text.quote path ++ (" is missing" : Text)
  | .negationOverflow => "integer negation overflow"
  | .arithmeticOverflow => "integer arithmetic overflow"
  | .moduloByZero => "modulo by zero"
  | .divisionByZero => "division by zero"
  | .floatingOverflow => "floating arithmetic overflow"
  | .invalidPattern => "error parsing regexp"
  | .nilExpression => "expression is nil"
  | .unsetExpression => "expression kind is not set"
  | .nilLiteral => "literal is nil"
  | .unsetLiteral => "literal kind is not set"
  | .call => "function calls are not available in an immutable source generation"
  | .notOperand type => ("not operand is " : Text) ++ type
  | .negateOperand type => ("negate operand is " : Text) ++ type
  | .unaryOperator => "unsupported unary operator"
  | .binaryOperator => "unsupported binary operator"
  | .logicalOperands => "logical operands must be bool"
  | .stringOperands => "string operands are required"
  | .stringAdd => "string add requires string operands"
  | .arithmeticOperands => "arithmetic operands must be numeric"
  | .moduloOperands => "modulo requires integer operands"
  | .stringContains => "string contains requires string"
  | .containsOperand type => ("contains operand is " : Text) ++ type
  | .comparisonDiffers => "comparison operands differ"
  | .comparisonOperands => "comparison operands must be numeric or string"
  | .predicateType type => ("predicate returned " : Text) ++ type ++ (", want bool" : Text)

def EvalError.err (e : EvalError) : Err :=
  match e with
  | .missingFact _ => ⟨[.invalidExecuteRequest], e.text⟩
  | _ => .new e.text

/-! ### Numbers -/

/-- The predeclared signed integer types. -/
def signedTypes : List Text := ["int", "int8", "int16", "int32", "int64"].map Text.ofString

/-- The predeclared unsigned integer types. -/
def unsignedTypes : List Text := ["uint", "uint8", "uint16", "uint32", "uint64"].map Text.ofString

def checkedInteger : GoValue → Option Int64
  | .int type n => if signedTypes.contains type then some n else none
  | .uint type n => if unsignedTypes.contains type ∧ n.toNat < 2 ^ 63 then some (Int64.ofInt n.toNat) else none
  | .number text => normalizeInt (.number text)
  | _ => none

/-- A finite float. A `json.Number` is read as the JSON literal a decoder makes it of; other texts `strconv.ParseFloat` takes,
such as hexadecimal ones, are no numbers here. -/
def checkedFloat (value : GoValue) : Option Float64 :=
  match checkedInteger value with
  | some n => some (Float64.ofInt n.toInt)
  | none =>
    match value with
    | .float32 type f => if type = ("float32" : Text) ∧ f.isFinite = true then some f else none
    | .float64 type f => if type = GoValue.float64Type ∧ f.isFinite = true then some f else none
    | .number text => ((Text.numberParts? text).map Float64.ofNumber).filter (·.isFinite)
    | _ => none

def checkedRational (value : GoValue) : Option ℚ :=
  match checkedInteger value with
  | some n => some n.toInt
  | none => (checkedFloat value).map Float64.toRat

/-! ### Equality -/

mutual

/-- `reflect.DeepEqual`. A value of another kind never comes here. -/
def deepEqual : GoValue → GoValue → Bool
  | .nil, .nil => true
  | .bool a, .bool b => a == b
  | .str a, .str b => a == b
  | .number a, .number b => a == b
  | .bytes a, .bytes b => a == b
  | .int s a, .int t b => s == t && a == b
  | .uint s a, .uint t b => s == t && a == b
  | .float32 s a, .float32 t b => s == t && Float64.eq a b
  | .float64 s a, .float64 t b => s == t && Float64.eq a b
  | .slice s a, .slice t b => s == t && deepEqualItems a b
  | .map s a, .map t b => s == t && deepEqualEntries a b
  | .namedBool s a, .namedBool t b => s == t && a == b
  | .namedStr s a, .namedStr t b => s == t && a == b
  | _, _ => false

def deepEqualItems : List GoValue → List GoValue → Bool
  | [], [] => true
  | a :: as, b :: bs => deepEqual a b && deepEqualItems as bs
  | _, _ => false

def deepEqualEntries : List (Text × GoValue) → List (Text × GoValue) → Bool
  | [], [] => true
  | (k, a) :: as, (l, b) :: bs => k == l && deepEqual a b && deepEqualEntries as bs
  | _, _ => false

end

mutual

/-- Numbers by value, a `json.Number` among them if it is a JSON literal; lists and objects part by part, anything else by
`reflect.DeepEqual`. -/
def checkedEqual (left right : GoValue) : Bool :=
  match checkedRational left with
  | some l =>
    match checkedRational right with
    | some r => decide (l = r)
    | none => false
  | none =>
    match left with
    | .slice type items =>
      if type = GoValue.anySlice then
        match right with
        | .slice type' items' => decide (type' = GoValue.anySlice) && checkedEqualItems items items'
        | _ => false
      else deepEqual left right
    | .map type entries =>
      if type = GoValue.anyMap then
        match right with
        | .map type' entries' =>
          decide (type' = GoValue.anyMap ∧ entries.length = entries'.length) && checkedEqualEntries entries entries'
        | _ => false
      else deepEqual left right
    | _ => deepEqual left right

def checkedEqualItems : List GoValue → List GoValue → Bool
  | [], [] => true
  | a :: as, b :: bs => checkedEqual a b && checkedEqualItems as bs
  | _, _ => false

/-- Every entry of the first is in the second. -/
def checkedEqualEntries : List (Text × GoValue) → List (Text × GoValue) → Bool
  | [], _ => true
  | (key, value) :: rest, others =>
    match Assoc.get? others key with
    | some other => checkedEqual value other && checkedEqualEntries rest others
    | none => false

end

/-! ### Operators -/

/-- `strings.Contains`. -/
def containsText (text part : Text) : Bool := text.tails.any fun rest => part.isPrefixOf rest

def checkedContains (container item : GoValue) : Except EvalError Bool :=
  match container with
  | .str text =>
    match item with
    | .str part => .ok (containsText text part)
    | _ => .error .stringContains
  | container =>
    match container.items? with
    | some items => .ok (items.any fun value => checkedEqual value item)
    | none => .error (.containsOperand container.typeName)

/-- The sign of a comparison, as `strings.Compare` and `Rat.Cmp` return it. -/
def compareCheckedValues (left right : GoValue) : Except EvalError Ordering :=
  match left with
  | .str l =>
    match right with
    | .str r => .ok (if Text.lt l r then .lt else if l = r then .eq else .gt)
    | _ => .error .comparisonDiffers
  | left =>
    match checkedRational left, checkedRational right with
    | some l, some r => .ok (if l < r then .lt else if l = r then .eq else .gt)
    | _, _ => .error .comparisonOperands

def checkedIntResult (n : Int) : Except EvalError GoValue :=
  if isInt64 n then .ok (.ofInt64 (Int64.ofInt n)) else .error .arithmeticOverflow

def checkedFloatResult (f : Float64) : Except EvalError GoValue :=
  if f.isFinite then .ok (.ofFloat64 f) else .error .floatingOverflow

/-- Integer arithmetic, for the operators that keep integers. -/
def integerArithmetic (operator : BinaryOperator) (l r : Int64) : Option (Except EvalError GoValue) :=
  match operator with
  | .add => some (checkedIntResult (l.toInt + r.toInt))
  | .subtract => some (checkedIntResult (l.toInt - r.toInt))
  | .multiply => some (checkedIntResult (l.toInt * r.toInt))
  | .modulo => some (if r = 0 then .error .moduloByZero else .ok (.ofInt64 (Int64.ofInt (l.toInt.tmod r.toInt))))
  | _ => none

def floatArithmetic (operator : BinaryOperator) (left right : GoValue) : Except EvalError GoValue :=
  match checkedFloat left, checkedFloat right with
  | some l, some r =>
    match operator with
    | .add => checkedFloatResult (l.add r)
    | .subtract => checkedFloatResult (l.sub r)
    | .multiply => checkedFloatResult (l.mul r)
    | .divide => if r.mag = 0 then .error .divisionByZero else checkedFloatResult (l.div r)
    | _ => .error .moduloOperands
  | _, _ => .error .arithmeticOperands

def checkedArithmetic (operator : BinaryOperator) (left right : GoValue) : Except EvalError GoValue :=
  match checkedInteger left, checkedInteger right with
  | some l, some r =>
    match integerArithmetic operator l r with
    | some result => result
    | none => floatArithmetic operator left right
  | _, _ => floatArithmetic operator left right

/-- Both operands as bools. -/
def logical (op : Bool → Bool → Bool) (left right : GoValue) : Except EvalError GoValue :=
  match left, right with
  | .bool l, .bool r => .ok (.bool (op l r))
  | _, _ => .error .logicalOperands

/-- Both operands as strings. -/
def textual (op : Text → Text → Except EvalError Bool) (left right : GoValue) : Except EvalError GoValue :=
  match left, right with
  | .str l, .str r => (op l r).map .bool
  | _, _ => .error .stringOperands

section

variable [Platform]

def evaluateCheckedBinary (operator : BinaryOperator) (left right : GoValue) : Except EvalError GoValue :=
  match operator with
  | .equal => .ok (.bool (checkedEqual left right))
  | .notEqual => .ok (.bool (!checkedEqual left right))
  | .and => logical (· && ·) left right
  | .or => logical (· || ·) left right
  | .greater => (compareCheckedValues left right).map fun c => .bool (c == .gt)
  | .greaterEqual => (compareCheckedValues left right).map fun c => .bool (c != .lt)
  | .less => (compareCheckedValues left right).map fun c => .bool (c == .lt)
  | .lessEqual => (compareCheckedValues left right).map fun c => .bool (c != .gt)
  | .contains => (checkedContains left right).map .bool
  | .isIn => (checkedContains right left).map .bool
  | .startsWith => textual (fun l r => .ok (Text.hasPrefix l r)) left right
  | .endsWith => textual (fun l r => .ok (Text.hasSuffix l r)) left right
  | .matches =>
    textual (fun l r =>
      match Platform.matchString r l with
      | some result => .ok result
      | none => .error .invalidPattern) left right
  | .add =>
    match left with
    | .str l =>
      match right with
      | .str r => .ok (.str (l ++ r))
      | _ => .error .stringAdd
    | left => checkedArithmetic .add left right
  | .subtract | .multiply | .divide | .modulo => checkedArithmetic operator left right
  | .unspecified | .other _ => .error .binaryOperator

end

/-! ### Expressions -/

mutual

def checkedLiteralValue : Literal → Except EvalError GoValue
  | .absent => .error .nilLiteral
  | .unset => .error .unsetLiteral
  | .null _ => .ok .nil
  | .bool b => .ok (.bool b)
  | .int n => .ok (.ofInt64 n)
  | .double f => .ok (.ofFloat64 f)
  | .string s => .ok (.str s)
  | .bytes b => .ok (.str (Base64.encode b))
  | .list values => (checkedLiteralValues values).map .ofList
  | .object fields => (checkedLiteralFields [] fields).map .ofMap

def checkedLiteralValues : List Literal → Except EvalError (List GoValue)
  | [] => .ok []
  | value :: rest =>
    match checkedLiteralValue value with
    | .error err => .error err
    | .ok resolved => (checkedLiteralValues rest).map (resolved :: ·)

def checkedLiteralFields (object : FactMap) : List (Text × Literal) → Except EvalError FactMap
  | [] => .ok object
  | (name, value) :: rest =>
    match checkedLiteralValue value with
    | .error err => .error err
    | .ok resolved => checkedLiteralFields (Assoc.set object name resolved) rest

end

/-- The switch over a unary operator. -/
def evaluateCheckedUnary (operator : UnaryOperator) (value : GoValue) : Except EvalError GoValue :=
  match operator with
  | .not =>
    match value with
    | .bool b => .ok (.bool !b)
    | value => .error (.notOperand value.typeName)
  | .negate =>
    match checkedInteger value with
    | some n => if n = Int64.minValue then .error .negationOverflow else .ok (.ofInt64 (-n))
    | none =>
      match checkedFloat value with
      | some f => .ok (.ofFloat64 f.negate)
      | none => .error (.negateOperand value.typeName)
  | .unspecified | .other _ => .error .unaryOperator

/-- The value a logical operator has by its left operand alone. -/
def shortCircuit (operator : BinaryOperator) (left : GoValue) : Option GoValue :=
  match operator, left with
  | .and, .bool false => some (.bool false)
  | .or, .bool true => some (.bool true)
  | _, _ => none

section

variable [Platform]

def evaluateCheckedExpression (facts : FactMap) : Expression → Except EvalError GoValue
  | .absent => .error .nilExpression
  | .unset => .error .unsetExpression
  | .literal value => checkedLiteralValue value
  | .factPath path =>
    match lookupWorkflowFact facts path with
    | some value => .ok value
    | none => .error (.missingFact path)
  | .unary operator operand =>
    match evaluateCheckedExpression facts operand with
    | .error err => .error err
    | .ok value => evaluateCheckedUnary operator value
  | .binary operator left right =>
    match evaluateCheckedExpression facts left with
    | .error err => .error err
    | .ok l =>
      match shortCircuit operator l with
      | some result => .ok result
      | none =>
        match evaluateCheckedExpression facts right with
        | .error err => .error err
        | .ok r => evaluateCheckedBinary operator l r
  | .call _ _ => .error .call

def evaluateCheckedPredicate (facts : FactMap) (expression : Expression) : Except EvalError Bool :=
  match evaluateCheckedExpression facts expression with
  | .error err => .error err
  | .ok (.bool b) => .ok b
  | .ok value => .error (.predicateType value.typeName)

end

end Effectus

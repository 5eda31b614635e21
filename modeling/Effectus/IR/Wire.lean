import Effectus.IR.Check
import Effectus.Lib.Wire

/-!
The encoding of rule artifacts, field by field as `effectus/v1/ir.proto` numbers them.
-/

namespace Effectus

namespace Wire

def nullNumber : NullValue → Int
  | .unspecified => 0
  | .null => 1
  | .other n => n

mutual

def literal : Literal → Option Text
  | .absent | .unset => some []
  | .null value => some (present 1 (enum (nullNumber value)))
  | .bool b => some (present 2 (if b then 1 else 0))
  | .int n => some (present 3 (zigzag n.toInt))
  | .double f => some (fixed64 4 f)
  | .string s => string 5 s
  | .bytes b => some (delimited 6 b)
  | .list values => submessage 7 (literals values)
  | .object fields => submessage 8 (literalFields fields)

def literals : List Literal → Option Text
  | [] => some []
  | value :: rest => message [submessage 1 (literal value), literals rest]

def literalFields : List (Text × Literal) → Option Text
  | [] => some []
  | (name, value) :: rest =>
    message [submessage 1 (message [optionalString 1 name, submessage 2 (literal value)]), literalFields rest]

end

def unaryNumber : UnaryOperator → Int
  | .unspecified => 0
  | .not => 1
  | .negate => 2
  | .other n => n

def binaryNumber : BinaryOperator → Int
  | .unspecified => 0
  | .equal => 1
  | .notEqual => 2
  | .greater => 3
  | .greaterEqual => 4
  | .less => 5
  | .lessEqual => 6
  | .and => 7
  | .or => 8
  | .isIn => 9
  | .contains => 10
  | .add => 11
  | .subtract => 12
  | .multiply => 13
  | .divide => 14
  | .modulo => 15
  | .matches => 16
  | .startsWith => 17
  | .endsWith => 18
  | .other n => n

mutual

def expression : Expression → Option Text
  | .absent | .unset => some []
  | .literal value => submessage 1 (literal value)
  | .factPath path => string 2 path
  | .unary operator operand =>
    submessage 3 (message [some (number 1 (enum (unaryNumber operator))), submessage 2 (expression operand)])
  | .binary operator left right =>
    submessage 4 (message [some (number 1 (enum (binaryNumber operator))), submessage 2 (expression left),
      submessage 3 (expression right)])
  | .call function arguments => submessage 5 (message [optionalString 1 function, expressions arguments])

def expressions : List Expression → Option Text
  | [] => some []
  | argument :: rest => message [submessage 2 (expression argument), expressions rest]

end

def argumentValue : ArgumentValue → Option Text
  | .absent | .unset => some []
  | .literal value => submessage 1 (literal value)
  | .factPath path => string 2 path
  | .resultSlot slot => some (present 3 slot.toNat)

def argument (a : Argument) : Option Text :=
  message [optionalString 1 a.name, submessage 2 (argumentValue a.value)]

def compensation (c : CompensationContract) : Option Text :=
  message [optionalString 1 c.inverseVerb, optionalString 2 c.inverseContractHash]

def retryPolicy (p : CheckedRetryPolicy) : Option Text :=
  some (number 1 p.maxAttempts.toNat ++ number 2 p.initialBackoffMillis.toNat ++ number 3 p.maxBackoffMillis.toNat)

def idempotencyNumber : StepIdempotency → Int
  | .unspecified => 0
  | .none => 1
  | .keyRequired => 2
  | .sinkGuaranteed => 3
  | .other n => n

def fencingNumber : StepFencing → Int
  | .unspecified => 0
  | .none => 1
  | .required => 2
  | .other n => n

/-- A message that may be missing. -/
def optional {α : Type} (field : Nat) (encode : α → Option Text) : Option α → Option Text
  | none => some []
  | some x => submessage field (encode x)

def repeated {α : Type} (field : Nat) (encode : α → Option Text) (xs : List α) : Option Text :=
  message (xs.map fun x => submessage field (encode x))

def step (s : Step) : Option Text :=
  message [optionalString 1 s.id, some (number 2 s.ordinal.toNat), optionalString 3 s.verb,
    optionalString 4 s.contractHash, repeated 5 argument s.arguments,
    some ((s.resultSlot.map fun slot => present 6 slot.toNat).getD []), optional 7 compensation s.compensation,
    optional 8 retryPolicy s.retryPolicy, some (number 9 (enum (idempotencyNumber s.idempotencyPolicy))),
    some (number 10 (enum (fencingNumber s.fencingRequirement)))]

def predicate : Expression → Option Text
  | .absent => some []
  | e => submessage 5 (submessage 1 (expression e))

def plan (p : Plan) : Option Text :=
  message [optionalString 1 p.id, some (number 2 (enum p.sourceDialect.number)), some (number 3 p.sourceOrder.toNat),
    some (number 4 (zigzag p.priority.toInt)), predicate p.predicate, some (number 6 (enum (Checker.policyNumber p.executionPolicy))),
    repeated 7 step p.steps]

def compiler (c : CompilerMetadata) : Option Text :=
  message [optionalString 1 c.name, optionalString 2 c.version, optionalString 3 c.buildDigest]

def artifact (a : RuleArtifact) : Option Text :=
  message [some (number 1 a.formatVersion.toNat), optional 2 compiler a.compiler, optionalString 3 a.environmentDigest,
    repeated 4 plan a.plans]

end Wire

/-- The encoding, and its length for a size. -/
@[reducible] def wireFormat : Protobuf where
  size a := ((Wire.artifact a).getD []).length
  marshal := Wire.artifact

end Effectus

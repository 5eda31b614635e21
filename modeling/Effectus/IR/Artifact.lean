import Effectus.Lib.Float64
import Effectus.Lib.Text

/-!
Rule artifacts, the messages of `effectus/v1/ir.proto`. An enumeration is open, as in proto3: a number
with no name is `other`. A message field that is not set is `absent`, and a `oneof` that holds no
member is `unset`; elements of repeated fields and members of a `oneof` are always there.
-/

namespace Effectus

inductive NullValue where
  | unspecified
  | null
  | other (n : Int)
  deriving DecidableEq

inductive Literal where
  | absent
  | unset
  | null (value : NullValue)
  | bool (b : Bool)
  | int (n : Int64)
  | double (f : Float64)
  | string (s : Text)
  | bytes (b : List UInt8)
  | list (values : List Literal)
  | object (fields : List (Text × Literal))

inductive UnaryOperator where
  | unspecified
  | not
  | negate
  | other (n : Int)
  deriving DecidableEq

inductive BinaryOperator where
  | unspecified
  | equal
  | notEqual
  | greater
  | greaterEqual
  | less
  | lessEqual
  | and
  | or
  | isIn
  | contains
  | add
  | subtract
  | multiply
  | divide
  | modulo
  | matches
  | startsWith
  | endsWith
  | other (n : Int)
  deriving DecidableEq

inductive Expression where
  | absent
  | unset
  | literal (value : Literal)
  | factPath (path : Text)
  | unary (operator : UnaryOperator) (operand : Expression)
  | binary (operator : BinaryOperator) (left right : Expression)
  | call (function : Text) (arguments : List Expression)

inductive ArgumentValue where
  | absent
  | unset
  | literal (value : Literal)
  | factPath (path : Text)
  | resultSlot (slot : UInt32)

structure Argument where
  name : Text
  value : ArgumentValue

structure CompensationContract where
  inverseVerb : Text
  inverseContractHash : Text
  deriving DecidableEq

structure CheckedRetryPolicy where
  maxAttempts : UInt32
  initialBackoffMillis : UInt64
  maxBackoffMillis : UInt64
  deriving DecidableEq

inductive StepIdempotency where
  | unspecified
  | none
  | keyRequired
  | sinkGuaranteed
  | other (n : Int)
  deriving DecidableEq

inductive StepFencing where
  | unspecified
  | none
  | required
  | other (n : Int)
  deriving DecidableEq

structure Step where
  id : Text
  ordinal : UInt32
  verb : Text
  contractHash : Text
  arguments : List Argument
  resultSlot : Option UInt32
  compensation : Option CompensationContract
  retryPolicy : Option CheckedRetryPolicy
  idempotencyPolicy : StepIdempotency
  fencingRequirement : StepFencing

inductive SourceDialect where
  | unspecified
  | list
  | flow
  | other (n : Int)
  deriving DecidableEq

def SourceDialect.number : SourceDialect → Int
  | .unspecified => 0
  | .list => 1
  | .flow => 2
  | .other n => n

inductive ExecutionPolicy where
  | unspecified
  | durableFailFast
  | durableCompensating
  | other (n : Int)
  deriving DecidableEq

/-- The predicate is `absent` when the plan has none or the predicate has no expression. -/
structure Plan where
  id : Text
  sourceDialect : SourceDialect
  sourceOrder : UInt32
  priority : Int32
  predicate : Expression
  executionPolicy : ExecutionPolicy
  steps : List Step

structure CompilerMetadata where
  name : Text
  version : Text
  buildDigest : Text

/-- `unknownFields` names the first message in which decoding left unknown fields. -/
structure RuleArtifact where
  formatVersion : UInt32
  compiler : Option CompilerMetadata
  environmentDigest : Text
  plans : List Plan
  unknownFields : Option Text

/-- What the program takes from the protobuf library: the size of a message and its deterministic
encoding, which fails on a string that is not UTF-8. -/
class Protobuf where
  size : RuleArtifact → Nat
  marshal : RuleArtifact → Option Text

end Effectus

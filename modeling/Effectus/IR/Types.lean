import Effectus.Errors
import Effectus.IR.Artifact
import Effectus.Lib.Assoc
import Effectus.Lib.Utf8

/-!
Declarations and the closed types they name. A type name parses to a reference; a reference to a named
type resolves to the structure its definition declares. Every recursion of the source that counts its
depth up to 64 counts the levels left down to zero here.
-/

namespace Effectus

namespace Text

def lowerByte (b : UInt8) : UInt8 := if 0x41 ≤ b && b ≤ 0x5A then b + 0x20 else b

/-- `strings.ToLower`, as far as a comparison with an ASCII word sees it: besides the capital letters
only U+0130 and U+212A have an ASCII lower case. -/
def toLower : Text → Text
  | 0xC4 :: 0xB0 :: t => 0x69 :: toLower t
  | 0xE2 :: 0x84 :: 0xAA :: t => 0x6B :: toLower t
  | b :: t => lowerByte b :: toLower t
  | [] => []

/-- `strings.EqualFold` on texts of equal length, the second ASCII: a fold past ASCII changes the
length. -/
def equalFold (a b : Text) : Bool := a.map lowerByte == b.map lowerByte

def hasPrefix (t p : Text) : Bool := p.isPrefixOf t

def hasSuffix (t p : Text) : Bool := p.isSuffixOf t

end Text

/-! ### Declarations -/

/-- `kind` is text, as the source has it; checking folds its case. -/
structure TypeDefinition where
  kind : Text
  elementType : Text
  fields : Dict Text Text
  requiredFields : List Text

def typeKindObject : Text := "object"

def typeKindList : Text := "list"

def typeKindMap : Text := "map"

structure RetryPolicy where
  maxAttempts : UInt32
  initialBackoffMillis : UInt64
  maxBackoffMillis : UInt64
  deriving DecidableEq

/-- `requiredArgs` is `none` for the nil slice, which requires every argument. -/
structure VerbContract where
  arguments : Dict Text Text
  requiredArgs : Option (List Text)
  resultType : Text
  inverseVerb : Text
  retryPolicy : RetryPolicy
  idempotencyPolicy : Text
  fencingRequired : Bool

structure FunctionContract where
  argumentTypes : List Text
  returnType : Text
  pure : Bool
  total : Bool

structure Environment where
  facts : Dict Text Text
  verbs : Dict Text VerbContract
  functions : Dict Text FunctionContract
  types : Dict Text TypeDefinition

/-! ### References -/

/-- A `typeRef`. A structure resolved from a definition keeps its name; one written out has none. -/
inductive TypeRef where
  | bool
  | int
  | float
  | string
  | bytes
  | null
  | void
  | list (name : Text) (element : TypeRef)
  | map (name : Text) (element : TypeRef)
  | object (name : Text) (fields : List (Text × TypeRef))
  | named (name : Text)

inductive TypeKind where
  | bool
  | int
  | float
  | string
  | bytes
  | null
  | void
  | list
  | map
  | object
  | named
  deriving DecidableEq

namespace TypeRef

def kind : TypeRef → TypeKind
  | .bool => .bool
  | .int => .int
  | .float => .float
  | .string => .string
  | .bytes => .bytes
  | .null => .null
  | .void => .void
  | .list _ _ => .list
  | .map _ _ => .map
  | .object _ _ => .object
  | .named _ => .named

def describe : TypeRef → Text
  | .bool => "bool"
  | .int => "int"
  | .float => "float"
  | .string => "string"
  | .bytes => "bytes"
  | .null => "null"
  | .void => "void"
  | .list name element => if name ≠ [] then name else ("list<" : Text) ++ element.describe ++ (">" : Text)
  | .map name element => if name ≠ [] then name else ("map<" : Text) ++ element.describe ++ (">" : Text)
  | .object name _ => if name ≠ [] then name else "object"
  | .named name => if name ≠ [] then name else "<invalid>"

def isNumeric (ref : TypeRef) : Bool := decide (ref.kind = .int ∨ ref.kind = .float)

/-- Two references to one named type. -/
def isSameNamed : TypeRef → TypeRef → Bool
  | .named a, .named b => a = b
  | _, _ => false

end TypeRef

/-- The types a word names, whatever its case. `void` is only a result. -/
def builtinType (allowVoid : Bool) (name lower : Text) : Option (Except Err TypeRef) :=
  if lower = ("bool" : Text) ∨ lower = ("boolean" : Text) then some (.ok .bool)
  else if lower = ("int" : Text) ∨ lower = ("integer" : Text) then some (.ok .int)
  else if lower = ("float" : Text) ∨ lower = ("double" : Text) ∨ lower = ("number" : Text) then some (.ok .float)
  else if lower = ("string" : Text) then some (.ok .string)
  else if lower = ("bytes" : Text) then some (.ok .bytes)
  else if lower = ("null" : Text) then some (.ok .null)
  else if lower = ("void" : Text) then
    some (if allowVoid then .ok .void else .error (.new "void is not valid here"))
  else if lower = ("any" : Text) ∨ lower = ("unknown" : Text) ∨ lower = ("object" : Text) ∨ lower = ("list" : Text) ∨
      lower = ("map" : Text) then
    some (.error (.new (("open type " : Text) ++ Text.quote name ++ (" is forbidden in checked IR" : Text))))
  else none

/-- What stands between the angle brackets of `constructor<...>`. -/
def genericInner (name constructor : Text) : Option Text :=
  let trimmed := Text.trimSpace name
  let opening := constructor ++ ("<" : Text)
  if trimmed.length ≤ opening.length ∨ Text.equalFold (trimmed.take opening.length) opening = false ∨
      Text.hasSuffix trimmed (">" : Text) = false then none
  else
    let inner := Text.trimSpace ((trimmed.take (trimmed.length - 1)).drop opening.length)
    if inner = [] then none else some inner

namespace Environment

/-- `parseDepth`, with `room` levels left. -/
def parseDepth (env : Environment) : Nat → Bool → Text → Except Err TypeRef
  | 0, _, _ => .error (.new "type depth limit exceeded")
  | room + 1, allowVoid, name =>
    let name := Text.trimSpace name
    if name = [] then .error (.new "type name is empty")
    else
      match builtinType allowVoid name (Text.toLower name) with
      | some result => result
      | none =>
        if Text.hasPrefix name ("[]" : Text) then
          match env.parseDepth room false (Text.trimSpace (name.drop 2)) with
          | .error err => .error (err.under "list element")
          | .ok element => .ok (.list [] element)
        else
          match genericInner name "list" with
          | some inner =>
            match env.parseDepth room false inner with
            | .error err => .error (err.under "list element")
            | .ok element => .ok (.list [] element)
          | none =>
            match genericInner name "map" with
            | some inner =>
              match env.parseDepth room false inner with
              | .error err => .error (err.under "map element")
              | .ok element => .ok (.map [] element)
            | none =>
              if (env.types.get? name).isSome then .ok (.named name)
              else .error (.new (("unknown type " : Text) ++ Text.quote name))

def parse (env : Environment) (name : Text) (allowVoid : Bool) : Except Err TypeRef :=
  env.parseDepth 65 allowVoid name

/-- The structure a named type declares; another reference is itself. A definition is read one level
deep, so the source's guard against cycles never fires. -/
def resolve (env : Environment) : TypeRef → Except Err TypeRef
  | .named name =>
    match env.types.get? name with
    | none => .error (.new (("unknown type " : Text) ++ Text.quote name))
    | some definition =>
      if definition.kind = typeKindList then (env.parse definition.elementType false).map (.list name)
      else if definition.kind = typeKindMap then (env.parse definition.elementType false).map (.map name)
      else if definition.kind = typeKindObject then
        (Assoc.mapM (fun _ typeName => env.parse typeName false) definition.fields.entries).map (.object name)
      else .error (.new (("unsupported type kind " : Text) ++ Text.quote definition.kind))
  | ref => .ok ref

/-- The required fields a definition lists. -/
def requiredFields (env : Environment) (name : Text) : List Text :=
  match env.types.get? name with
  | some definition => definition.requiredFields
  | none => []

/-- The fields an object always has: the required ones of its definition, or all that are written out. -/
def requiredObjectFields (env : Environment) (name : Text) (fields : List (Text × TypeRef)) : List Text :=
  if name ≠ [] then env.requiredFields name else fields.map Prod.fst

/-- The resolved half of `assignableDepth`; `deeper` compares the parts one level down. Objects are
closed: a field the contract does not declare is not sent, and an optional field promises nothing. -/
def assignableResolved (env : Environment) (deeper : TypeRef → TypeRef → Bool) (actual expected : TypeRef) : Bool :=
  if actual.kind = .int ∧ expected.kind = .float then true
  else if actual.kind ≠ expected.kind then false
  else
    match actual, expected with
    | .list _ a, .list _ e => deeper a e
    | .map _ a, .map _ e => deeper a e
    | .object a fields, .object e expectedFields =>
      (fields.all fun field =>
        match Assoc.get? expectedFields field.1 with
        | some expectedField => deeper field.2 expectedField
        | none => false) &&
        (env.requiredObjectFields e expectedFields).all fun required => (env.requiredObjectFields a fields).contains required
    | _, _ => decide (actual.kind ≠ .void)

/-- `assignableDepth`, with `room` levels left. -/
def assignableDepth (env : Environment) : Nat → TypeRef → TypeRef → Bool
  | 0, _, _ => false
  | room + 1, actual, expected =>
    if actual.isSameNamed expected then true
    else
      match env.resolve actual, env.resolve expected with
      | .ok actual, .ok expected => env.assignableResolved (env.assignableDepth room) actual expected
      | _, _ => false

def assignable (env : Environment) (actual expected : TypeRef) : Bool := env.assignableDepth 65 actual expected

/-! ### Literals -/

mutual

/-- `literalType`, with `room` levels left. -/
def literalType (env : Environment) (room : Nat) (literal : Literal) : Except Err TypeRef :=
  if room = 0 then .error (.new "invalid literal")
  else
    match literal with
    | .absent => .error (.new "invalid literal")
    | .unset => .error (.new "literal kind is not set")
    | .null value => if value ≠ .null then .error (.new "invalid null literal") else .ok .null
    | .bool _ => .ok .bool
    | .int _ => .ok .int
    | .double _ => .ok .float
    | .string _ => .ok .string
    | .bytes _ => .ok .bytes
    | .list [] => .error (.new "empty list literal has no closed element type")
    | .list (first :: rest) =>
      match env.literalType (room - 1) first with
      | .error err => .error err
      | .ok first => (env.literalUpperBound (room - 1) first rest).map (.list [])
    | .object fields => (env.literalFields (room - 1) fields).map (.object [])

/-- The type the items of a list share, given that of the items before. -/
def literalUpperBound (env : Environment) (room : Nat) (first : TypeRef) : List Literal → Except Err TypeRef
  | [] => .ok first
  | value :: rest =>
    match env.literalType room value with
    | .error err => .error err
    | .ok current =>
      if env.assignable current first then env.literalUpperBound room first rest
      else if env.assignable first current then env.literalUpperBound room current rest
      else .error (.new "list literal contains incompatible element types")

def literalFields (env : Environment) (room : Nat) : List (Text × Literal) → Except Err (List (Text × TypeRef))
  | [] => .ok []
  | (name, value) :: rest =>
    match env.literalType room value with
    | .error err => .error (err.under (("field " : Text) ++ Text.quote name))
    | .ok fieldType =>
      match env.literalFields room rest with
      | .error err => .error err
      -- Of two fields with one name the later is kept.
      | .ok fields => .ok (if (Assoc.get? fields name).isSome then fields else Assoc.set fields name fieldType)

end

def incompatibleLiteral (expected : TypeRef) : Err :=
  .new (("literal type is incompatible with " : Text) ++ expected.describe)

/-- A literal that is not a collection, against the type expected of it. -/
def scalarAssignable (env : Environment) (literal : Literal) (expected : TypeRef) : Except Err Unit :=
  match env.literalType 65 literal with
  | .error err => .error err
  | .ok actual => if env.assignable actual expected then .ok () else .error (incompatibleLiteral expected)

/-- The first required field that is missing. -/
def checkRequired (env : Environment) (name : Text) (seen : List Text) (message : Text) : Except Err Unit :=
  match (env.requiredFields name).find? fun required => !seen.contains required with
  | some required => .error (.new (message ++ Text.quote required))
  | none => .ok ()

mutual

/-- Collections are checked against the closed type expected of them, so that an empty one has a
type. -/
def literalAssignable (env : Environment) : Literal → TypeRef → Except Err Unit
  | .list values, expected =>
    match env.resolve expected with
    | .error err => .error err
    | .ok (.list _ element) => env.literalItemsAssignable 0 values element
    | .ok (.object _ _) | .ok (.map _ _) => .error (incompatibleLiteral expected)
    | .ok _ => env.scalarAssignable (.list values) expected
  | .object fields, expected =>
    match env.resolve expected with
    | .error err => .error err
    | .ok (.object name expectedFields) =>
      match env.literalFieldsAssignable fields expectedFields with
      | .error err => .error err
      | .ok () => env.checkRequired name (fields.map Prod.fst) "missing required object field "
    | .ok (.map _ element) => env.literalEntriesAssignable fields element
    | .ok (.list _ _) => .error (incompatibleLiteral expected)
    | .ok _ => env.scalarAssignable (.object fields) expected
  | literal, expected =>
    match env.resolve expected with
    | .error err => .error err
    | .ok (.object _ _) | .ok (.list _ _) | .ok (.map _ _) => .error (incompatibleLiteral expected)
    | .ok _ => env.scalarAssignable literal expected

def literalItemsAssignable (env : Environment) (index : Nat) : List Literal → TypeRef → Except Err Unit
  | [], _ => .ok ()
  | value :: rest, element =>
    match env.literalAssignable value element with
    | .error err => .error (err.under (("list item " : Text) ++ Text.ofInt index))
    | .ok () => env.literalItemsAssignable (index + 1) rest element

def literalFieldsAssignable (env : Environment) : List (Text × Literal) → List (Text × TypeRef) → Except Err Unit
  | [], _ => .ok ()
  | (name, value) :: rest, expectedFields =>
    match Assoc.get? expectedFields name with
    | none => .error (.new (("unexpected object field " : Text) ++ Text.quote name))
    | some fieldExpected =>
      match env.literalAssignable value fieldExpected with
      | .error err => .error (err.under (("field " : Text) ++ Text.quote name))
      | .ok () => env.literalFieldsAssignable rest expectedFields

def literalEntriesAssignable (env : Environment) : List (Text × Literal) → TypeRef → Except Err Unit
  | [], _ => .ok ()
  | (name, value) :: rest, element =>
    match env.literalAssignable value element with
    | .error err => .error (err.under (("map field " : Text) ++ Text.quote name))
    | .ok () => env.literalEntriesAssignable rest element

end

end Environment

end Effectus

import Effectus.Invocation.Http
import Effectus.Lib.JsonTyped

/-!
Executor descriptors as they are made, written and read. A descriptor is made from maps, and keeps their entries in order;
one that is read has to come in that order already.
-/

namespace Effectus

/-- `strings.ToLower`, left open as the rest of the platform is. -/
class Casing where
  toLower : Text → Text

/-- `strings.ToLower` on ASCII. -/
@[reducible] def asciiCasing : Casing := ⟨Text.toLower⟩

namespace Invocation

open JsonSchema

/-! ### Descriptors -/

def descriptorHTTP : Text := "http"

def descriptorGRPC : Text := "grpc"

def descriptorStream : Text := "stream"

def descriptorOCI : Text := "oci"

def descriptorEmbedded : Text := "embedded"

structure DescriptorSpec where
  type : Text
  resolverID : Text
  reference : Text
  headers : Dict Text Text
  settings : Dict Text Text

structure DescriptorKV where
  name : Text
  value : Text
  deriving DecidableEq

structure DescriptorDocument where
  type : Text
  resolverID : Text
  reference : Text
  headers : List DescriptorKV
  settings : List DescriptorKV
  deriving DecidableEq

def validateDescriptorType (value : Text) : Except Err Unit :=
  if value ∈ [descriptorHTTP, descriptorGRPC, descriptorStream, descriptorOCI, descriptorEmbedded] then .ok ()
  else .error (.new (("unknown invocation descriptor type " : Text) ++ Text.quote value))

def digestMark : Text := "@sha256:"

/-- `^.+@sha256:[0-9a-f]{64}$`: a dot is any character but a line feed. -/
def digestPinnedOCIReference (reference : Text) : Bool :=
  let name := reference.take (reference.length - 72)
  let pin := reference.drop (reference.length - 72)
  decide (name ≠ [] ∧ 0x0A ∉ name) && decide (pin.take 8 = digestMark) &&
    (pin.drop 8).all fun b => (0x30 ≤ b && b ≤ 0x39) || (0x61 ≤ b && b ≤ 0x66)

def checkReference (type reference : Text) : Except Err Unit :=
  if type = descriptorOCI ∧ digestPinnedOCIReference reference = false then
    .error (.new "invocation descriptor OCI reference must be digest-pinned")
  else .ok ()

def checkKey (name : Text) : Except Err Unit :=
  if name = [] ∨ name ≠ Text.trimSpace name then
    .error (.new (("invocation descriptor contains a non-canonical key " : Text) ++ Text.quote name))
  else .ok ()

section

variable [Casing]

/-- A header field is not one of those before it, by their folded names, and not a reserved one. -/
def checkHeader (seen : List (Text × Text)) (name : Text) : Except Err Unit :=
  match Assoc.get? seen (Casing.toLower name) with
  | some previous =>
    .error (.new (("invocation descriptor headers " : Text) ++ Text.quote previous ++ (" and " : Text) ++ Text.quote name ++
      (" collide case-insensitively" : Text)))
  | none =>
    if reservedHTTPHeaders.contains (Casing.toLower name) ∨ Text.hasPrefix (Casing.toLower name) reservedStart then
      .error (.new (("invocation descriptor header " : Text) ++ Text.quote name ++ (" is reserved" : Text)))
    else .ok ()

def checkHeaderIf (headers : Bool) (seen : List (Text × Text)) (name : Text) : Except Err Unit :=
  if headers then checkHeader seen name else .ok ()

/-! ### Making one -/

/-- The names that are left, in order. -/
def checkNames (headers : Bool) : List (Text × Text) → List Text → Except Err Unit
  | _, [] => .ok ()
  | seen, name :: names => do
    checkKey name
    checkHeaderIf headers seen name
    checkNames headers ((Casing.toLower name, name) :: seen) names

def canonicalDescriptorValues (values : Dict Text Text) (headers : Bool) : Except Err (List DescriptorKV) := do
  checkNames headers [] (values.entries.map Prod.fst)
  return values.entries.map fun entry => ⟨entry.1, entry.2⟩

def newDescriptor (spec : DescriptorSpec) : Except Err DescriptorDocument := do
  let resolverID := Text.trimSpace spec.resolverID
  let reference := Text.trimSpace spec.reference
  validateDescriptorType spec.type
  checkReference spec.type reference
  let headers ← canonicalDescriptorValues spec.headers true
  let settings ← canonicalDescriptorValues spec.settings false
  return ⟨spec.type, resolverID, reference, headers, settings⟩

/-! ### Checking one -/

/-- The values that are left: each comes after the one before it. -/
def checkValues (headers : Bool) : Option Text → List (Text × Text) → List DescriptorKV → Except Err Unit
  | _, _, [] => .ok ()
  | previous, seen, value :: values => do
    checkKey value.name
    if previous.any fun name => Text.lt name value.name = false then
      throw (.new "invocation descriptor keys are duplicated or not ordered")
    checkHeaderIf headers seen value.name
    checkValues headers (some value.name) ((Casing.toLower value.name, value.name) :: seen) values

def validateCanonicalDescriptorValues (values : List DescriptorKV) (headers : Bool) : Except Err Unit :=
  checkValues headers none [] values

def DescriptorDocument.validate (descriptor : DescriptorDocument) : Except Err Unit := do
  validateDescriptorType descriptor.type
  if descriptor.resolverID ≠ Text.trimSpace descriptor.resolverID ∨
      descriptor.reference ≠ Text.trimSpace descriptor.reference then
    throw (.new "invocation descriptor identifiers must be normalized")
  checkReference descriptor.type descriptor.reference
  validateCanonicalDescriptorValues descriptor.headers true
  validateCanonicalDescriptorValues descriptor.settings false

end

/-! ### The document of one -/

def kvSchema : Schema := .struct [("name", .string), ("value", .string)] []

def DescriptorKV.toValue (kv : DescriptorKV) : Value := .struct [("name", .string kv.name), ("value", .string kv.value)]

def DescriptorKV.ofValue (v : Value) : DescriptorKV := ⟨(v.field "name").text, (v.field "value").text⟩

def descriptorFields : List (Text × Schema) :=
  [("type", .string), ("resolver_id", .string), ("reference", .string), ("headers", .slice kvSchema),
    ("settings", .slice kvSchema)]

def descriptorOmitEmpty : List Text := ["resolver_id", "reference", "headers", "settings"]

def DescriptorDocument.toValue (descriptor : DescriptorDocument) : Value :=
  .struct [("type", .string descriptor.type), ("resolver_id", .string descriptor.resolverID),
    ("reference", .string descriptor.reference), ("headers", .slice (descriptor.headers.map DescriptorKV.toValue)),
    ("settings", .slice (descriptor.settings.map DescriptorKV.toValue))]

def DescriptorDocument.ofValue (v : Value) : DescriptorDocument where
  type := (v.field "type").text
  resolverID := (v.field "resolver_id").text
  reference := (v.field "reference").text
  headers := (v.field "headers").items.map DescriptorKV.ofValue
  settings := (v.field "settings").items.map DescriptorKV.ofValue

/-- The type of the document alone. -/
def descriptorDocumentSchema : Schema := .struct descriptorFields descriptorOmitEmpty

section

variable [Casing]

/-- A descriptor decodes itself. -/
def descriptorSchema : Schema :=
  .own descriptorFields descriptorOmitEmpty fun v => (DescriptorDocument.ofValue v).validate.isOk

/-- `ParseDescriptor`. What the decoder has to say about a document is left out. -/
def parseDescriptor (data : Text) : Except Err DescriptorDocument :=
  match unmarshalStrict descriptorDocumentSchema data with
  | none => .error (.new "decode invocation descriptor")
  | some v => do
    (DescriptorDocument.ofValue v).validate
    return .ofValue v

end

end Invocation

end Effectus

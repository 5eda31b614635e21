import Effectus.Runtime.Generation

/-!
Source bundles: rule sources with the declarations they are compiled against and the executors of the verbs.
-/

namespace Effectus

structure Source where
  path : Text
  content : Text

/-- What is compiled of a bundle: what its methods return. -/
structure SourceBundle where
  name : Text
  version : Text
  sources : List Source
  environment : Environment
  executors : Dict Text Descriptor
  digest : Text

/-- The elements between slashes. -/
def pathElements : Text → List Text
  | [] => [[]]
  | b :: t =>
    if b = 0x2F then [] :: pathElements t
    else
      match pathElements t with
      | [] => [[b]]
      | element :: rest => (b :: element) :: rest

/-- A relative path is what `path.Clean` makes of it if no element of it is empty, a dot or two dots. -/
def isCleanPath (path : Text) : Bool :=
  (pathElements path).all fun element => decide (element ≠ [] ∧ element ≠ [0x2E] ∧ element ≠ [0x2E, 0x2E])

def validateSourcePath (path : Text) : Except Err Unit :=
  let label := ("source bundle path " : Text) ++ Text.quote path
  if path = [] ∨ path ≠ Text.trimSpace path ∨ 0x5C ∈ path ∨ isCleanPath path = false then
    .error (.new (label ++ (" is not a normalized relative path" : Text)))
  else if Text.hasSuffix path (".eff" : Text) = false ∧ Text.hasSuffix path (".effx" : Text) = false then
    .error (.new (label ++ (" must end in .eff or .effx" : Text)))
  else .ok ()

/-- Line endings become line feeds. -/
def normalizeNewlines : Text → Text
  | 0x0D :: 0x0A :: t => 0x0A :: normalizeNewlines t
  | 0x0D :: t => 0x0A :: normalizeNewlines t
  | b :: t => b :: normalizeNewlines t
  | [] => []

/-- The sources so far, with one more. -/
def addSource (sources : List Source) (source : Source) : Except Err (List Source) := do
  validateSourcePath source.path
  if (sources.map (·.path)).contains source.path then
    throw (.new (("source bundle repeats source path " : Text) ++ Text.quote source.path))
  let content := normalizeNewlines source.content
  if Text.validUTF8 content = false then
    throw (.new (("source bundle source " : Text) ++ Text.quote source.path ++ (" is not UTF-8" : Text)))
  return sources ++ [⟨source.path, content⟩]

def checkBundleExecutor (environment : Environment) (verb : Text) : Except Err Unit :=
  if verb = [] ∨ verb ≠ Text.trimSpace verb then
    .error (.new (("source bundle executor verb " : Text) ++ Text.quote verb ++ (" is not normalized" : Text)))
  else if (environment.verbs.get? verb).isNone then
    .error (.new (("source bundle executor " : Text) ++ Text.quote verb ++ (" has no verb contract" : Text)))
  else .ok ()

def checkMetadataKey (name : Text) : Except Err Unit :=
  if name = [] ∨ name ≠ Text.trimSpace name then
    .error (.new (("source bundle metadata key " : Text) ++ Text.quote name ++ (" is not normalized" : Text)))
  else .ok ()

def bundleFormatVersion : Text := "effectus.source-bundle.v1"

end Effectus

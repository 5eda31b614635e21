import Effectus.IR.Value

/-!
Facts from admission to use. The facts of a request are normalized against the declared types, made into
JSON and read back, flattened so that every nested value also stands under its dotted path, and
normalized once more; an admission's identity is the digest of what results.
-/

namespace Effectus

/-- A `map[string]any`: entries in key order. -/
abbrev FactMap := List (Text × GoValue)

/-! ### Canonical JSON -/

section

variable [Platform]

/-- A scalar through its JSON text. -/
def reencode (value : GoValue) : Except Err GoValue :=
  match value.marshal with
  | none => .error (.new "json: unsupported value")
  | some encoded =>
    match Json.decode encoded.render with
    | none => .error (.new "invalid JSON")
    | some decoded => .ok (.ofJson decoded)

/-- The items of a list, counting nodes from one to the next. -/
def normalizeAdmissionItems (item : GoValue → Nat → Except Err (GoValue × Nat)) (index : Nat) :
    List GoValue → Nat → Except Err (List GoValue × Nat) :=
  normalizeItems item index

/-- The entries of a map in key order. -/
def normalizeAdmissionEntries (item : GoValue → Nat → Except Err (GoValue × Nat)) :
    List (Text × GoValue) → Nat → Except Err (List (Text × GoValue) × Nat)
  | [], nodes => .ok ([], nodes)
  | (name, value) :: rest, nodes =>
    match item value nodes with
    | .error err => .error (err.under (("field " : Text) ++ Text.quote name))
    | .ok (normalized, nodes) =>
      match normalizeAdmissionEntries item rest nodes with
      | .error err => .error err
      | .ok (normalizedRest, nodes) => .ok ((name, normalized) :: normalizedRest, nodes)

/-- `normalizeAdmissionValueDepth`, with `room` levels left, after `before` nodes. -/
def normalizeAdmissionValueDepth : Nat → GoValue → Nat → Except Err (GoValue × Nat)
  | 0, _, _ => .error (.new "admission value depth or node limit exceeded")
  | room + 1, value, before =>
    let nodes := before + 1
    if 10000 < nodes then .error (.new "admission value depth or node limit exceeded")
    else
      match value with
      | .nil => .ok (.nil, nodes)
      | .bytes raw => .ok (.str (Base64.encode raw), nodes)
      | .map _ entries =>
        if 10000 < entries.length then .error (.new "admission field limit exceeded")
        else (normalizeAdmissionEntries (normalizeAdmissionValueDepth room) entries nodes).map fun (entries, nodes) =>
          (.ofMap entries, nodes)
      | .slice _ items =>
        if 10000 < items.length then .error (.new "admission item limit exceeded")
        else (normalizeAdmissionItems (normalizeAdmissionValueDepth room) 0 items nodes).map fun (items, nodes) =>
          (.ofList items, nodes)
      | .other type isMap _ =>
        if isMap then .error (.new "admission map keys must be strings")
        else .error (.new (("unsupported value type " : Text) ++ type))
      | value => (reencode value).map fun value => (value, nodes)

def normalizeAdmissionValue (value : GoValue) : Except Err GoValue :=
  (normalizeAdmissionValueDepth 65 value 0).map Prod.fst

/-- The document `canonicalJSONValue` writes. -/
def canonicalDocument (value : GoValue) : Except Err Json :=
  match normalizeAdmissionValue value with
  | .error err => .error err
  | .ok normalized =>
    match normalized.marshal with
    | none => .error (.new "json: unsupported value")
    | some document => .ok document

def canonicalJSONValue (value : GoValue) : Except Err Text := (canonicalDocument value).map Json.render

/-- A JSON object as facts; null is the nil map. -/
def decodeExecutionFacts (data : Text) : Except Err FactMap :=
  match Json.decode data with
  | some (.obj members) => .ok (GoValue.ofJsonMembers members)
  | some .null => .ok []
  | _ => .error (.new "decode frozen execution facts")

end

/-! ### Paths -/

/-- The byte between the segments of a path. -/
def dot : UInt8 := 0x2E

def isDotted (key : Text) : Bool := key.contains dot

/-- The segments of a path. A dot at the end starts no segment, and the empty path has none. -/
def pathSegments (path : Text) : List Text :=
  let segments := path.splitOn dot
  if segments.getLast? = some [] then segments.dropLast else segments

/-- The value some segments lead to, through objects only. -/
def lookupSegments : GoValue → List Text → Option GoValue
  | current, [] => some current
  | .map type entries, segment :: rest =>
    if type = GoValue.anyMap then
      match Assoc.get? entries segment with
      | some next => lookupSegments next rest
      | none => none
    else none
  | _, _ :: _ => none

/-- `lookupWorkflowFact`: the path itself before the objects it leads through. -/
def lookupWorkflowFact (facts : FactMap) (path : Text) : Option GoValue :=
  match Assoc.get? facts path with
  | some value => some value
  | none => lookupSegments (.ofMap facts) (pathSegments path)

/-- Names without a dot come first, each group in key order. -/
def orderedWorkflowFactKeys {α : Type} (object : List (Text × α)) : List (Text × α) :=
  (object.filter fun entry => !isDotted entry.1) ++ object.filter fun entry => isDotted entry.1

/-- A name under a prefix. -/
def joinPath (parent key : Text) : Text := if parent = [] then key else parent ++ dot :: key

mutual

/-- What `flattenWorkflowFact` assigns below a value, in order. -/
def flattenedBelow (parent : Text) : GoValue → FactMap
  | .map type entries =>
    if type = GoValue.anyMap then (orderedWorkflowFactKeys (flattenedEntries parent entries)).flatMap Prod.snd else []
  | _ => []

/-- What it assigns for each entry of an object. -/
def flattenedEntries (parent : Text) : List (Text × GoValue) → List (Text × FactMap)
  | [] => []
  | (key, child) :: rest =>
    (key, (joinPath parent key, child) :: flattenedBelow (joinPath parent key) child) :: flattenedEntries parent rest

end

def assignAll (target assignments : FactMap) : FactMap :=
  assignments.foldl (fun target assignment => Assoc.set target assignment.1 assignment.2) target

def flattenWorkflowFact (target : FactMap) (parent : Text) (value : GoValue) : FactMap :=
  assignAll target (flattenedBelow parent value)

/-- Nested values before explicit dotted paths, so that an explicit path wins. -/
def mergeWorkflowFactOverrides (target overrides : FactMap) : FactMap :=
  (orderedWorkflowFactKeys overrides).foldl (fun target entry =>
    flattenWorkflowFact (Assoc.set target entry.1 entry.2) entry.1 entry.2) target

/-! ### Normalization -/

/-- Each declared fact that is there, at its declared type, in path order. -/
def validateAdmissionFactTypes (environment : Environment) (facts : FactMap) : Except Err FactMap :=
  environment.facts.entries.foldlM (fun facts declared =>
    match lookupWorkflowFact facts declared.1 with
    | none => .ok facts
    | some value =>
      match normalizeValue environment declared.2 value with
      | .error err => .error (err.under (("fact " : Text) ++ Text.quote declared.1))
      | .ok normalized => .ok (Assoc.set facts declared.1 normalized)) facts

section

variable [Platform]

def normalizedWorkflowFacts (environment : Environment) (facts : FactMap) : Except Err FactMap := do
  let copy ← validateAdmissionFactTypes environment facts
  let wire ← canonicalJSONValue (.ofMap copy)
  let owned ← decodeExecutionFacts wire
  validateAdmissionFactTypes environment (mergeWorkflowFactOverrides [] owned)

/-! ### Identity -/

structure Admission where
  executionID : Text
  admissionID : Text
  tenantNamespace : Text
  ruleset : Text
  version : Text
  facts : FactMap
  mergePolicy : Text
  expectedGenerationDigest : Text

/-- What `admissionHash` feeds the digest. -/
def admissionDocument (a : Admission) (facts : Json) : Json :=
  .obj [jsonMember "namespace" (.ofText a.tenantNamespace), jsonMember "ruleset" (.ofText a.ruleset),
    jsonMember "version" (.ofText a.version), jsonMember "merge_policy" (.ofText a.mergePolicy),
    jsonMember "facts" facts]

def admissionHash (a : Admission) : Except Err Text :=
  (canonicalDocument (.ofMap a.facts)).map fun facts => hexEncode (Platform.sha256 (admissionDocument a facts).render)

/-- An object with something in it. -/
def isNonemptyObject : GoValue → Bool
  | .map type entries => decide (type = GoValue.anyMap ∧ entries ≠ [])
  | _ => false

/-- The facts an identity is made of: undeclared intermediate objects are left out. -/
def identityFacts (environment : Environment) (facts : FactMap) : FactMap :=
  facts.filter fun entry => (environment.facts.get? entry.1).isSome || !isNonemptyObject entry.2

def semanticAdmissionHash (admission : Admission) (environment : Environment) : Except Err Text :=
  match normalizedWorkflowFacts environment admission.facts with
  | .error err => .error ⟨.invalidExecuteRequest :: err.sentinels,
      Sentinel.invalidExecuteRequest.text ++ (": " : Text) ++ err.text⟩
  | .ok facts => admissionHash { admission with facts := identityFacts environment facts }

end

end Effectus

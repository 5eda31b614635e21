import Effectus.Bundle.Document
import Effectus.Ledger.Types

/-!
Reading the documents that are pinned with an execution.
-/

namespace Effectus

open JsonSchema

/-- `strictArtifactJSON`: one document of the type, without unknown fields. -/
def strictArtifactJSON (schema : Schema) (data : Text) : Except Err Value :=
  match (Json.readOnly data).bind (decode schema (zero schema)) with
  | none => .error (.new "invalid document")
  | some v => .ok v

def identitySchema : Schema :=
  .struct [("ruleset", .string), ("version", .string), ("function_ids", .map .string)] []

/-- The environment of an artifact. -/
def decodeArtifactEnvironment (artifact : ExecutionArtifact) : Except Err Environment :=
  match unmarshal environmentSchema artifact.environment with
  | none => .error (.new "decode artifact environment: invalid document")
  | some v => .ok (.ofValue v)

end Effectus

import Effectus.IR.Wire
import Effectus.Runtime.Build
import Effectus.Theorems.Bundle.RoundTrip
import Effectus.Theorems.IR.Recheck
import Effectus.Theorems.Runtime.Clone

/-!
Rebuilding a pinned generation. The artifact pinned with an execution carries the generation's own copy of the
environment, so the checked artifact passes again only if that copy still has the digest of the original. Then all else
agrees, and the generation is the one it was.
-/

namespace Effectus

open Fallible JsonSchema

/-! ### Manifests -/

section

variable [Platform] [Protobuf]

variable [ProtobufReader]

/-- What the encodings of a generation's artifact are read back as: protobuf and JSON return what was written. -/
structure Generation.RoundTrips (g : Generation) : Prop where
  size : Protobuf.size g.checked.artifact = g.checked.wire.length
  wire : ProtobufReader.unmarshal g.checked.wire = some g.checked.artifact
  names : ∀ entry ∈ g.executorDescriptors.entries, Text.validUTF8 entry.1 = true
  descriptors : ∀ entry ∈ g.executorDescriptors.entries, decodeDescriptor entry.2.document = entry.2

theorem parseArtifact_ok {data : Text} {environment : Environment} {limits : Limits} {checked : Checked} :
    parseArtifact data environment limits = .ok checked ↔
      ∃ full artifact, limits.withDefaults = .ok full ∧ data.length ≤ full.maxArtifactBytes ∧
        ProtobufReader.unmarshal data = some artifact ∧ checkArtifact artifact environment full = .ok checked := by
  unfold parseArtifact
  rw [bind_ok]
  refine exists_congr fun full => ?_
  constructor
  · rintro ⟨hfull, h⟩
    obtain ⟨hsize, h⟩ := guard_ok.1 h
    split at h
    · exact absurd h throw_ok
    · rename_i artifact hread
      exact ⟨artifact, hfull, not_lt.1 hsize, hread, h⟩
  · rintro ⟨artifact, hfull, hsize, hread, h⟩
    refine ⟨hfull, guard_ok.2 ⟨not_lt.2 hsize, ?_⟩⟩
    rw [hread]
    exact h

end

section

attribute [local instance] reference wireFormat asciiCasing

open PortableBundle

/-- A plan of one step for a source: an order is shipped. -/
def shipPlan (environment : Environment) (policy : ExecutionPolicy) (source : Source) (order : Nat) : Plan where
  id := source.path
  sourceDialect := .list
  sourceOrder := .ofNat order
  priority := 0
  predicate := .literal (.bool true)
  executionPolicy := policy
  steps := [⟨source.path, 0, "ship",
    ((environment.verbs.get? "ship").bind fun contract => (contractHash contract).toOption).getD [],
    [⟨"x", .literal (.string "order")⟩], none, none, none, .unspecified, .unspecified⟩]

def lowerShip : LowerSources := fun sources environment policy =>
  .ok (sources.zipIdx.map fun x => shipPlan environment policy x.1 x.2)

def shipRegistry : Registry := ⟨⟨[("local", fun _ => .ok ())], List.pairwise_singleton _ _⟩⟩

def shipConfig (bundle : SourceBundle) : GenerationBuildConfig where
  bundle := bundle
  compileOptions := ⟨.unspecified, .zero⟩
  resolvers := some shipRegistry
  functionIDs := .empty
  production := true

/-- The bundle of two sources, compiled. -/
def shipChecked (required : Value) : Except Err Checked := do
  let bundle ← SourceBundle.new (sampleSpec required)
  compileChecked lowerShip bundle (shipConfig bundle).compileOptions

/-- What protobuf reads from the encoding of the artifact. -/
def readShip (required : Value) (data : Text) : Option RuleArtifact :=
  ((shipChecked required).toOption.filter fun checked => decide (checked.wire = data)).map Checked.artifact

section

@[reducible] def keptReader : ProtobufReader := ⟨readShip .nilSlice⟩

attribute [local instance] keptReader

end

@[reducible] def lostReader : ProtobufReader := ⟨readShip (.slice [])⟩

attribute [local instance] lostReader

end

end Effectus

import Effectus.Theorems.Runtime.Compensation
import Effectus.Theorems.Runtime.Resolver

/-!
Checking is a fixed point. The encoding of an accepted artifact reads back as the artifact with its policies filled in,
which every limit, order and hash check accepts as it did the original.
-/

namespace Effectus

open Fallible

section

variable [Platform] [Protobuf] [ProtobufReader]

/-- `Marshal`. -/
def Checked.marshal (c : Checked) : Text := c.wire

/-- `CloneArtifact`; the source stops the program when its own encoding does not decode. -/
def Checked.cloneArtifact (c : Checked) : Option RuleArtifact := ProtobufReader.unmarshal c.wire

/-- What protobuf is trusted with: the message reads back from its encoding, which is as long as its size says. -/
structure Checked.RoundTrips (c : Checked) : Prop where
  wire : ProtobufReader.unmarshal c.wire = some c.artifact
  size : Protobuf.size c.artifact = c.wire.length

theorem check_fixed_point {artifact : RuleArtifact} {environment : Environment} {limits : Limits} {c : Checked}
    (h : checkArtifact artifact environment limits = .ok c) (hround : c.RoundTrips) :
    (∃ parsed, parseArtifact c.marshal environment limits = .ok parsed ∧ parsed.marshal = c.marshal ∧
      parsed.digest = c.digest ∧ parsed.planCount = c.planCount ∧ parsed.stepCount = c.stepCount) ∧
    ∃ clone again, c.cloneArtifact = some clone ∧ checkArtifact clone environment limits = .ok again ∧
      again.marshal = c.marshal ∧ again.digest = c.digest ∧ again.planCount = c.planCount ∧
      again.stepCount = c.stepCount := by
  obtain ⟨full, env, s, hfull, -, -, -, -, -, hlimit, -⟩ := checkArtifact_ok.1 h
  have hagain : checkArtifact c.artifact environment full = .ok c := checkArtifact_again h rfl hfull hround.size
  have hparse : parseArtifact c.marshal environment limits = .ok c :=
    parseArtifact_ok.2 ⟨full, c.artifact, hfull, hlimit, hround.wire, hagain⟩
  have hclone : checkArtifact c.artifact environment limits = .ok c := (checkArtifact_limits hfull).trans hagain
  exact ⟨⟨c, hparse, rfl, rfl, rfl, rfl⟩, c.artifact, c, hround.wire, hclone, rfl, rfl, rfl, rfl⟩

end

section

attribute [local instance] reference wireFormat

/-- What protobuf reads from the encoding of the plan that is undone. -/
@[reducible] def undoReader : ProtobufReader where
  unmarshal data := ((checkArtifact (undoArtifact (undoEnvironment none)) (undoEnvironment none) .zero).toOption.filter
    fun c => decide (c.wire = data)).map Checked.artifact

attribute [local instance] undoReader

/-- A step whose policies were left open, read back with them filled in. -/
theorem check_fixed_point_undo : ∃ c parsed,
    checkArtifact (undoArtifact (undoEnvironment none)) (undoEnvironment none) .zero = .ok c ∧
    (c.artifact.plans.any fun plan => plan.steps.any fun step => step.retryPolicy.isSome && step.compensation.isSome) = true ∧
    parseArtifact c.marshal (undoEnvironment none) .zero = .ok parsed ∧ parsed.digest = c.digest := by
  have hrun : (checkArtifact (undoArtifact (undoEnvironment none)) (undoEnvironment none) .zero).toOption.any (fun c =>
      c.artifact.plans.any fun plan => plan.steps.any fun step => step.retryPolicy.isSome && step.compensation.isSome) =
      true := by decide +kernel
  obtain ⟨c, hc, hfilled⟩ := (Option.any_eq_true ..).1 hrun
  have h : checkArtifact (undoArtifact (undoEnvironment none)) (undoEnvironment none) .zero = .ok c := by
    cases hcheck : checkArtifact (undoArtifact (undoEnvironment none)) (undoEnvironment none) .zero with
    | error err => simp [hcheck, Except.toOption] at hc
    | ok x => simpa [hcheck, Except.toOption] using hc
  have hwire : ProtobufReader.unmarshal c.wire = some c.artifact := by
    show Option.map _ (Option.filter _ _) = _
    rw [hc, Option.filter_some, decide_eq_true rfl]
    rfl
  have hsize : Protobuf.size c.artifact = c.wire.length := by
    obtain ⟨_, _, _, -, -, -, -, -, hmarshal, -⟩ := checkArtifact_ok.1 h
    show ((Wire.artifact c.artifact).getD []).length = c.wire.length
    rw [show Wire.artifact c.artifact = some c.wire from hmarshal]
    rfl
  obtain ⟨⟨parsed, hparsed, -, hdigest, -⟩, -⟩ := check_fixed_point h ⟨hwire, hsize⟩
  exact ⟨c, parsed, h, hfilled, hparsed, hdigest⟩

end

end Effectus

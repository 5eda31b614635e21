import Effectus.Lib.Fallible
import Effectus.Lib.JsonRead
import Effectus.Theorems.Outbox.Runs

/-! The arguments of every dispatch are the text of a JSON document as Go writes it, stored with its digest: reading them
    and writing them again gives the same text. -/

namespace Effectus

open Fallible

section

variable [Platform]

/-! ### Documents as Go values -/

mutual

/-- A document that was read is written as it was. -/
theorem GoValue.marshal_ofJson : ∀ j : Json, (GoValue.ofJson j).marshal = some j
  | .null | .bool _ => rfl
  | .num n => by
    have hne : n.text.isEmpty = false := by
      have hvalid := n.valid
      cases ht : n.text with
      | nil =>
        rw [ht] at hvalid
        cases hvalid
      | cons b t => rfl
    rw [ofJson, marshal, if_neg (by simp [hne]), dif_pos n.valid]
  | .str s => by
    rw [ofJson, marshal]
    exact congrArg (some ∘ Json.str) (Utf8Text.ext (Text.repairUTF8_of_valid s.valid))
  | .arr items => by
    rw [ofJson, ofList, marshal, GoValue.marshalItems_ofJson items]
    rfl
  | .obj members => by
    rw [ofJson, ofMap, marshal, GoValue.marshalEntries_ofJson members]
    rfl

theorem GoValue.marshalItems_ofJson : ∀ js : List Json, GoValue.marshalItems (GoValue.ofJsonItems js) = some js
  | [] => rfl
  | j :: js => by
    rw [ofJsonItems, marshalItems, GoValue.marshal_ofJson j, GoValue.marshalItems_ofJson js]

theorem GoValue.marshalEntries_ofJson :
    ∀ ms : List (Utf8Text × Json), GoValue.marshalEntries (GoValue.ofJsonMembers ms) = some ms
  | [] => rfl
  | (k, j) :: ms => by
    rw [ofJsonMembers, marshalEntries, GoValue.marshal_ofJson j, GoValue.marshalEntries_ofJson ms]
    exact congrArg (fun k => some ((k, j) :: ms)) (Utf8Text.ext (Text.repairUTF8_of_valid k.valid))

end

/-! ### Canonical arguments -/

/-- The text of a document that reads back, with its digest. -/
def CanonicalText (text hash : Text) : Prop :=
  ∃ j : Json, j.Fits 0 ∧ text = j.render ∧ hash = hexEncode (Platform.sha256 text)

theorem canonicalJSON_canonical {v : GoValue} {text hash : Text} (h : canonicalJSON v = .ok (text, hash)) :
    CanonicalText text hash := by
  unfold canonicalJSON at h
  split at h
  · cases h
  split at h
  · cases h
  rename_i decoded hdecoded
  rw [GoValue.marshal_ofJson] at h
  obtain ⟨rfl, rfl⟩ := Prod.mk.inj (Except.ok.inj h)
  exact ⟨decoded, Json.decode_fits hdecoded, rfl, rfl⟩

/-- What a step carries forward is canonical, and so is what undoes it, if anything does. -/
structure SagaStep.Canonical (step : SagaStep) : Prop where
  forward : CanonicalText step.arguments step.argumentHash
  compensation : step.compensationArguments = [] ∨
    CanonicalText step.compensationArguments step.compensationArgumentHash

theorem SagaStep.Canonical.congr {x y : SagaStep} (h : x.core = y.core) (hx : x.Canonical) : y.Canonical := by
  obtain ⟨-, -, -, -, -, ha, hah, -, -, hc, hch, -⟩ := SagaStep.core_eq.1 h
  exact ⟨ha ▸ hah ▸ hx.forward, hc ▸ hch ▸ hx.compensation⟩

theorem normalizeCompensation_canonical {request request' : EnqueueStepRequest} {text hash : Text}
    (h : normalizeCompensation request = .ok (request', text, hash)) : text = [] ∨ CanonicalText text hash := by
  unfold normalizeCompensation at h
  split at h
  · split at h
    · cases h
    dsimp only at h
    split at h
    · cases h
    · rename_i hjson
      obtain ⟨-, h⟩ := Prod.mk.inj (Except.ok.inj h)
      obtain ⟨rfl, rfl⟩ := Prod.mk.inj h
      exact .inr (canonicalJSON_canonical hjson)
  · split at h
    · cases h
    · obtain ⟨-, h⟩ := Prod.mk.inj (Except.ok.inj h)
      exact .inl (Prod.mk.inj h).1.symm

theorem normalizeEnqueue_canonical {request : EnqueueStepRequest} {n : NormalizedStep}
    (h : normalizeEnqueue request = .ok n) : (Store.newStep n).Canonical := by
  unfold normalizeEnqueue at h
  split at h
  · cases h
  split at h
  · cases h
  split at h
  · cases h
  obtain ⟨⟨text, hash⟩, hjson, h⟩ := bind_ok.1 h
  obtain ⟨⟨request', text', hash'⟩, hcomp, h⟩ := bind_ok.1 h
  obtain ⟨-, -, h⟩ := bind_ok.1 h
  obtain rfl := pure_ok.1 h
  exact ⟨canonicalJSON_canonical hjson, normalizeCompensation_canonical hcomp⟩

end

namespace Store

variable {s t : Store}

section

variable [Platform]

/-! ### Runs -/

theorem enqueueCompensation_steps (s : Store) (saga : SagaInstance) (step : SagaStep) (now : Time) :
    (s.enqueueCompensation saga step now).steps = s.steps := by
  rcases enqueueCompensation_cases s saga step now with ⟨-, h⟩ | ⟨-, h⟩ <;> rw [h]

/-- What follows an outcome touches no step. -/
theorem settle_steps (s : Store) (d : Dispatch) (step : SagaStep) (saga : SagaInstance) (c : Completion) :
    (s.settle d step saga c).steps = (s.recordCompletion d step saga c).steps := by
  unfold settle
  dsimp only
  split
  · unfold startCompensation
    split
    · rfl
    · exact enqueueCompensation_steps ..
  split
  · unfold enqueueNextCompensation
    split
    · rfl
    · exact enqueueCompensation_steps ..
  · rfl

/-- Steps come from checked requests. -/
theorem Trans.steps (hk : Keys s) (h : Trans s t) : t.steps.map (·.core) = s.steps.map (·.core) ∨
    ∃ request n, normalizeEnqueue request = .ok n ∧ t.steps = s.steps ++ [newStep n] := by
  cases h with
  | created => exact .inl rfl
  | enqueued normalized => exact .inr ⟨_, _, normalized, rfl⟩
  | claimed found => exact .inl (sameCores_claim hk (mem_of_candidate? found).1).steps
  | granted found => exact .inl (sameCores_grant hk (mem_of_dispatch? found)).steps
  | settled found inFlight hsaga hstep =>
    rw [settle_steps]
    exact .inl (sameCores_record hk (mem_of_dispatch? found) (mem_of_step? hstep) (mem_of_saga? hsaga)).steps
  | closed | failedFast | blocked => exact .inl rfl
  | stopped => exact .inl (congrArg _ (stopSaga_steps ..))

/-- Every step is canonical. -/
def Written (s : Store) : Prop := ∀ step ∈ s.steps, step.Canonical

theorem Trans.written (hs : Shape s) (hw : Written s) (h : Trans s t) : Written t := by
  intro step hm
  rcases h.steps hs.toKeys with hcores | ⟨request, n, hn, hsteps⟩
  · have hcore : step.core ∈ s.steps.map (·.core) := hcores ▸ List.mem_map_of_mem hm
    obtain ⟨x, hx, he⟩ := List.mem_map.1 hcore
    exact (hw x hx).congr he
  · rw [hsteps] at hm
    rcases List.mem_append.1 hm with hm | hm
    · exact hw step hm
    · rw [List.mem_singleton.1 hm]
      exact normalizeEnqueue_canonical hn

theorem written_empty : Written empty := fun _ h => absurd h List.not_mem_nil

/-- A dispatch that has arguments has canonical ones. -/
theorem Written.dispatch (hs : Shape s) (hw : Written s) {d : Dispatch} (hd : d ∈ s.dispatches) :
    d.arguments = [] ∨ CanonicalText d.arguments d.argumentHash := by
  obtain ⟨saga, -, step, hstep, -, hcarries⟩ := hs.carries d hd
  obtain ⟨-, -, -, -, -, -, -, ha, hah, -⟩ := Dispatch.core_eq.1 hcarries
  have hstep := hw step hstep
  rw [ha, hah]
  cases d.direction with
  | forward => exact .inr hstep.forward
  | compensation => exact hstep.compensation

end

end Store

end Effectus

import Effectus.Bundle.Document
import Effectus.Go.Reference
import Effectus.Lib.Fallible

/-!
Strict documents. The scan before decoding compares names byte by byte, and the decoder finds a field also under a name in
other case; so a document is decoded the same in every order of its members exactly if no two names differ only in case.
-/

namespace Effectus

open JsonSchema Invocation

namespace PortableBundle

/-! ### The types of the documents -/

theorem kvSchema_apart : kvSchema.Apart := ⟨by decide, trivial, trivial, trivial⟩

theorem descriptorFields_apart : (descriptorFields.map fun field => foldName field.1).Nodup ∧
    Schema.ApartFields descriptorFields :=
  ⟨by decide, trivial, trivial, trivial, kvSchema_apart, kvSchema_apart, trivial⟩

theorem environmentSchema_apart : environmentSchema.Apart :=
  ⟨by decide, trivial, ⟨by decide, trivial, trivial, trivial, trivial, ⟨by decide, trivial, trivial, trivial, trivial⟩,
    trivial, trivial, trivial⟩, ⟨by decide, trivial, trivial, trivial, trivial, trivial⟩,
    ⟨by decide, trivial, trivial, trivial, trivial, trivial⟩, trivial⟩

theorem descriptorDocumentSchema_apart : descriptorDocumentSchema.Apart := descriptorFields_apart

section

variable [Casing]

theorem namedDescriptorSchema_apart : namedDescriptorSchema.Apart := by
  refine ⟨?_, trivial, descriptorFields_apart, trivial⟩
  show ([("verb" : Text), ("descriptor" : Text)].map foldName).Nodup
  decide

theorem documentSchema_apart : documentSchema.Apart := by
  refine ⟨?_, trivial, trivial, trivial, ⟨by decide, trivial, trivial, trivial⟩, environmentSchema_apart,
    namedDescriptorSchema_apart, kvSchema_apart, trivial⟩
  show ([("format_version" : Text), ("name" : Text), ("version" : Text), ("sources" : Text), ("environment" : Text),
    ("executors" : Text), ("metadata" : Text)].map foldName).Nodup
  decide

end

/-! ### Documents that are accepted -/

/-- A document that is accepted, read by a function of its text, assigns each field once and in no order of its members
reads as anything else. -/
def ReadsOnce {α : Type} (schema : Schema) (parse : Text → Except Err α) (data : Text) (out : α) : Prop :=
  ∃ x, Json.readOnly data = some x ∧ AssignsOnce schema x ∧
    ∀ other y, x.Reorders y → Json.readOnly other = some y → parse other = .ok out

/-- No two names of an object that is decoded to a struct differ only in case. -/
def NamesApart (schema : Schema) (data : Text) : Prop := ∃ x, Json.readOnly data = some x ∧ FoldsApart schema x

/-- A parser that goes by what was decoded strictly. -/
theorem readsOnce_iff {α : Type} {schema : Schema} (hapart : schema.Apart) {parse : Text → Except Err α}
    {make : Value → Except Err α} {err : Err}
    (hparse : ∀ data, parse data = match unmarshalStrict schema data with | none => .error err | some v => make v)
    {data : Text} {out : α} (h : parse data = .ok out) : ReadsOnce schema parse data out ↔ NamesApart schema data := by
  rw [hparse] at h
  split at h
  · cases h
  · rename_i v hv
    obtain ⟨x, hread, hiff, hsame⟩ := unmarshalStrict_once_iff hapart hv
    constructor
    · rintro ⟨y, hy, honce, -⟩
      cases hread.symm.trans hy
      exact ⟨x, hread, hiff.1 honce⟩
    · rintro ⟨y, hy, hfolds⟩
      cases hread.symm.trans hy
      have honce := hiff.2 hfolds
      refine ⟨x, hread, honce, fun other y hxy hother => ?_⟩
      rw [hparse, hsame honce other y hxy hother, ← h]

/-- What is accepted as a bundle or as a descriptor assigns each field once, and reads the same in every order of its
members, exactly if no two names of one object differ only in case. -/
theorem readsOnce_documents_iff [Platform] [Casing] (data : Text) :
    (∀ bundle, parse data = .ok bundle → (ReadsOnce documentSchema parse data bundle ↔ NamesApart documentSchema data)) ∧
      ∀ descriptor, parseDescriptor data = .ok descriptor →
        (ReadsOnce descriptorDocumentSchema parseDescriptor data descriptor ↔ NamesApart descriptorDocumentSchema data) :=
  ⟨fun _ h => readsOnce_iff documentSchema_apart (fun _ => rfl) h,
    fun _ h => readsOnce_iff descriptorDocumentSchema_apart (fun _ => rfl) h⟩

/-! ### A name in two cases -/

/-- A document with its names given. -/
def sampleMembers (names : List (Utf8Text × Json)) : List (Utf8Text × Json) :=
  jsonMember "format_version" (.ofText bundleFormatVersion) :: (names ++
    [jsonMember "version" (.ofText "1"), jsonMember "sources" (.arr []), jsonMember "environment" (.obj [])])

def nameFirst : Text :=
  (Json.obj (sampleMembers [jsonMember "name" (.ofText "a"), jsonMember "Name" (.ofText "b")])).render

def nameLast : Text :=
  (Json.obj (sampleMembers [jsonMember "Name" (.ofText "b"), jsonMember "name" (.ofText "a")])).render

def nameOnce : Text := (Json.obj (sampleMembers [jsonMember "name" (.ofText "a")])).render

def typeOnce : Text := (Json.obj [jsonMember "type" (.ofText descriptorHTTP)]).render

section

attribute [local instance] reference asciiCasing

/-- Two members for one field are accepted, and the later one stays. -/
theorem name_decided_by_order : ∃ x y bundle other, Json.readOnly nameFirst = some x ∧ x.Swaps y ∧
    Json.readOnly nameLast = some y ∧ parse nameFirst = .ok bundle ∧ parse nameLast = .ok other ∧
    ¬AssignsOnce documentSchema x ∧ bundle.name ≠ other.name := by
  have hfirst : (parse nameFirst).toOption.any (fun bundle => decide (bundle.name = ("b" : Text))) = true := by
    decide +kernel
  have hlast : (parse nameLast).toOption.any (fun bundle => decide (bundle.name = ("a" : Text))) = true := by
    decide +kernel
  obtain ⟨bundle, hbundle, hb⟩ := Fallible.ok_of_any hfirst
  obtain ⟨other, hother, ha⟩ := Fallible.ok_of_any hlast
  refine ⟨_, _, bundle, other, Json.readOnly_render ?_, .here [_] _ _ _, Json.readOnly_render ?_, hbundle, hother, ?_, ?_⟩
  · exact ⟨by decide, trivial, trivial, trivial, trivial, ⟨by decide, trivial⟩, ⟨by decide, trivial⟩, trivial⟩
  · exact ⟨by decide, trivial, trivial, trivial, trivial, ⟨by decide, trivial⟩, ⟨by decide, trivial⟩, trivial⟩
  · intro honce
    exact absurd honce.1 (by decide +kernel)
  · rw [of_decide_eq_true hb, of_decide_eq_true ha]
    decide

theorem readsOnce_documents_plain :
    (∃ bundle, parse nameOnce = .ok bundle ∧ ReadsOnce documentSchema parse nameOnce bundle) ∧
      ∃ descriptor, parseDescriptor typeOnce = .ok descriptor ∧
        ReadsOnce descriptorDocumentSchema parseDescriptor typeOnce descriptor := by
  have hparse : (parse nameOnce).toOption.any (fun _ => true) = true := by decide +kernel
  have hdescriptor : (parseDescriptor typeOnce).toOption.any (fun _ => true) = true := by decide +kernel
  obtain ⟨bundle, hbundle, -⟩ := Fallible.ok_of_any hparse
  obtain ⟨descriptor, hdescriptor, -⟩ := Fallible.ok_of_any hdescriptor
  refine ⟨⟨bundle, hbundle, ((readsOnce_documents_iff nameOnce).1 bundle hbundle).2 ⟨_, Json.readOnly_render ?_, ?_⟩⟩,
    descriptor, hdescriptor, ((readsOnce_documents_iff typeOnce).2 descriptor hdescriptor).2
      ⟨_, Json.readOnly_render ?_, ?_⟩⟩
  · exact ⟨by decide, trivial, trivial, trivial, ⟨by decide, trivial⟩, ⟨by decide, trivial⟩, trivial⟩
  · exact ⟨by decide +kernel, trivial, trivial, trivial, trivial, ⟨List.nodup_nil, trivial⟩, trivial⟩
  · exact ⟨by decide, trivial, trivial⟩
  · exact ⟨by decide +kernel, trivial, trivial⟩

end

end PortableBundle

end Effectus

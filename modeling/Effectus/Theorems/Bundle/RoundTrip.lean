import Effectus.Go.Reference
import Effectus.Lib.SortBy
import Effectus.Lib.Tar
import Effectus.Theorems.Bundle.Documents

/-!
Bundles as files and back. What a new bundle is depends on its specification only through normal forms: sources in the order
of their paths, with line feeds, and declarations as they are read back. The bytes of a bundle hold those forms, so reading
them makes the bundle they were written from.
-/

namespace Effectus

open JsonSchema Invocation Fallible

/-! ### Line endings -/

inductive Ending where
  | lf
  | crlf
  | cr

namespace Ending

def text : Ending → Text
  | .lf => [0x0A]
  | .crlf => [0x0D, 0x0A]
  | .cr => [0x0D]

/-- A carriage return before a line feed would be one ending with it. -/
def Ends (ending : Ending) (rest : Text) : Prop := ending = .cr → rest.head? ≠ some 0x0A

end Ending

/-- Two texts of the same lines, each line with any of the endings. -/
inductive SameLines : Text → Text → Prop
  | nil : SameLines [] []
  | byte {b : UInt8} (hcr : b ≠ 0x0D) (hlf : b ≠ 0x0A) {s t : Text} (h : SameLines s t) : SameLines (b :: s) (b :: t)
  | ending (a b : Ending) {s t : Text} (ha : a.Ends s) (hb : b.Ends t) (h : SameLines s t) :
    SameLines (a.text ++ s) (b.text ++ t)

theorem normalizeNewlines_byte {b : UInt8} (h : b ≠ 0x0D) (t : Text) :
    normalizeNewlines (b :: t) = b :: normalizeNewlines t := by
  rw [normalizeNewlines.eq_def]
  split
  · rename_i heq
    exact absurd (List.cons.inj heq).1 h
  · rename_i heq
    exact absurd (List.cons.inj heq).1 h
  · rename_i heq
    cases heq
    rfl
  · rename_i heq
    cases heq

theorem normalizeNewlines_ending {ending : Ending} {t : Text} (h : ending.Ends t) :
    normalizeNewlines (ending.text ++ t) = 0x0A :: normalizeNewlines t := by
  cases ending with
  | lf => exact normalizeNewlines_byte (by decide) t
  | crlf => rfl
  | cr =>
    show normalizeNewlines (0x0D :: t) = _
    rw [normalizeNewlines.eq_def]
    split
    · rename_i rest heq
      cases heq
      exact absurd rfl (h rfl)
    · rename_i heq
      cases heq
      rfl
    · rename_i hcr heq
      cases heq
      exact absurd rfl hcr
    · rename_i heq
      cases heq

/-- Lines count, not how they end. -/
theorem SameLines.normalize {s t : Text} (h : SameLines s t) : normalizeNewlines s = normalizeNewlines t := by
  induction h with
  | nil => rfl
  | byte hcr _ _ ih => rw [normalizeNewlines_byte hcr, normalizeNewlines_byte hcr, ih]
  | ending a b ha hb _ ih => rw [normalizeNewlines_ending ha, normalizeNewlines_ending hb, ih]

theorem normalizeNewlines_noReturn (t : Text) : 0x0D ∉ normalizeNewlines t := by
  fun_induction normalizeNewlines t with
  | case1 t ih => simpa using ih
  | case2 t hlf ih => simpa using ih
  | case3 b t hcrlf hcr ih => simpa [ih] using Ne.symm hcr
  | case4 => simp

theorem normalizeNewlines_of_noReturn {t : Text} (h : 0x0D ∉ t) : normalizeNewlines t = t := by
  induction t with
  | nil => rfl
  | cons b t ih =>
    rw [List.mem_cons, not_or] at h
    rw [normalizeNewlines_byte (Ne.symm h.1), ih h.2]

/-! ### Sources -/

namespace Source

/-- A source with its lines ended by line feeds. -/
def normal (source : Source) : Source := ⟨source.path, normalizeNewlines source.content⟩

theorem normal_normal (source : Source) : source.normal.normal = source.normal := by
  rw [normal, normal, normalizeNewlines_of_noReturn (normalizeNewlines_noReturn _)]

/-- A source that a bundle takes. -/
def Accepted (source : Source) : Prop :=
  validateSourcePath source.path = .ok () ∧ Text.validUTF8 (normalizeNewlines source.content) = true

theorem Accepted.normal {source : Source} (h : source.Accepted) : source.normal.Accepted := by
  refine ⟨h.1, ?_⟩
  show Text.validUTF8 (normalizeNewlines (normalizeNewlines source.content)) = true
  rw [normalizeNewlines_of_noReturn (normalizeNewlines_noReturn _)]
  exact h.2

end Source

theorem addSource_ok {done out : List Source} {source : Source} : addSource done source = .ok out ↔
    source.Accepted ∧ source.path ∉ done.map (·.path) ∧ out = done ++ [source.normal] := by
  constructor
  · intro h
    obtain ⟨_, hpath, h⟩ := bind_ok.1 h
    obtain ⟨hfresh, h⟩ := guard_ok.1 h
    obtain ⟨hutf8, h⟩ := guard_ok.1 h
    exact ⟨⟨hpath, by simpa using hutf8⟩, by simpa using hfresh, (pure_ok.1 h).symm⟩
  · rintro ⟨⟨hpath, hutf8⟩, hfresh, rfl⟩
    refine bind_ok.2 ⟨_, hpath, guard_ok.2 ⟨by simpa using hfresh, guard_ok.2 ⟨?_, rfl⟩⟩⟩
    rw [hutf8]
    exact nofun

theorem foldlM_addSource : ∀ {sources done out : List Source}, (done.map (·.path)).Nodup →
    (sources.foldlM addSource done = .ok out ↔ (∀ source ∈ sources, source.Accepted) ∧
      ((done ++ sources).map (·.path)).Nodup ∧ out = done ++ sources.map Source.normal)
  | [], done, out, hdone => by
    rw [List.foldlM_nil, pure_ok]
    simp [hdone, eq_comm]
  | source :: sources, done, out, hdone => by
    have hmap : ((done ++ [source.normal]).map (·.path)) = (done ++ [source]).map (·.path) := by
      simp [Source.normal]
    have hnodup : ((done ++ source :: sources).map (·.path)).Nodup →
        source.path ∉ done.map (·.path) ∧ ((done ++ [source.normal]).map (·.path)).Nodup := by
      intro h
      rw [hmap]
      rw [List.append_cons, List.map_append] at h
      have hfront := (List.nodup_append.1 h).1
      refine ⟨fun hm => ?_, hfront⟩
      rw [List.map_append] at hfront
      exact (List.nodup_append.1 hfront).2.2 _ hm _ (List.mem_cons_self ..) rfl
    have hkeys : (done ++ [source.normal] ++ sources).map (·.path) = (done ++ source :: sources).map (·.path) := by
      simp [Source.normal]
    rw [List.foldlM_cons, bind_ok]
    constructor
    · rintro ⟨next, hnext, h⟩
      obtain ⟨haccepted, hfresh, rfl⟩ := addSource_ok.1 hnext
      have hnext : ((done ++ [source.normal]).map (·.path)).Nodup := by
        rw [List.map_append]
        refine List.nodup_append.2 ⟨hdone, List.nodup_singleton _, fun a ha b hb => ?_⟩
        rintro rfl
        exact hfresh ((List.mem_singleton.1 hb : a = source.path) ▸ ha)
      obtain ⟨hall, hpaths, rfl⟩ := (foldlM_addSource hnext).1 h
      exact ⟨List.forall_mem_cons.2 ⟨haccepted, hall⟩, hkeys ▸ hpaths, by simp⟩
    · rintro ⟨hall, hpaths, rfl⟩
      obtain ⟨haccepted, hall⟩ := List.forall_mem_cons.1 hall
      obtain ⟨hfresh, hnext⟩ := hnodup hpaths
      refine ⟨_, addSource_ok.2 ⟨haccepted, hfresh, rfl⟩, (foldlM_addSource hnext).2 ⟨hall, hkeys ▸ hpaths, by simp⟩⟩

theorem addSources_ok {sources out : List Source} : sources.foldlM addSource [] = .ok out ↔
    (∀ source ∈ sources, source.Accepted) ∧ (sources.map (·.path)).Nodup ∧ out = sources.map Source.normal :=
  @foldlM_addSource sources [] out List.nodup_nil

/-! ### New bundles -/

namespace PortableBundle

/-- The bundle that is made. -/
def frozen (spec : PortableSpec) : PortableBundle where
  name := spec.name
  version := spec.version
  sources := (spec.sources.map Source.normal).insertionSort fun a b => Text.lt b.path a.path = false
  environment := cloneEnvironment spec.environment
  executors := spec.executors
  metadata := spec.metadata

theorem mem_frozen_sources {spec : PortableSpec} {source : Source} (h : source ∈ (frozen spec).sources) :
    ∃ original ∈ spec.sources, original.normal = source :=
  List.mem_map.1 ((List.mem_insertionSort _).1 h)

theorem frozen_sources_paths (spec : PortableSpec) :
    ((frozen spec).sources.map (·.path)).Perm (spec.sources.map (·.path)) := by
  have hperm := (List.perm_insertionSort (fun a b : Source => Text.lt b.path a.path = false)
    (spec.sources.map Source.normal)).map (·.path)
  rwa [List.map_map] at hperm

theorem frozen_sources_normal (spec : PortableSpec) :
    (((frozen spec).sources.map Source.normal).insertionSort fun a b => Text.lt b.path a.path = false) =
      (frozen spec).sources := by
  have hnormal : (frozen spec).sources.map Source.normal = (frozen spec).sources := by
    conv_rhs => rw [← List.map_id (frozen spec).sources]
    refine List.map_congr_left fun source hm => ?_
    obtain ⟨original, -, rfl⟩ := mem_frozen_sources hm
    exact original.normal_normal
  rw [hnormal]
  exact SortBy.sort_sort Source.path _

/-- The sources in another order and with other line endings, and any metadata. -/
structure Rearranges (spec other : PortableSpec) : Prop where
  name : other.name = spec.name
  version : other.version = spec.version
  environment : other.environment = spec.environment
  executors : other.executors = spec.executors
  sources : ∃ ordered, spec.sources.Perm ordered ∧
    List.Forall₂ (fun a b : Source => b.path = a.path ∧ SameLines a.content b.content) ordered other.sources

theorem map_normal_eq {xs ys : List Source}
    (h : List.Forall₂ (fun a b : Source => b.path = a.path ∧ SameLines a.content b.content) xs ys) :
    ys.map Source.normal = xs.map Source.normal := by
  induction h with
  | nil => rfl
  | cons hab _ ih =>
    rw [List.map_cons, List.map_cons, ih, Source.normal, Source.normal, hab.1, hab.2.normalize]

section

variable {spec other : PortableSpec} (h : Rearranges spec other)

include h

theorem Rearranges.normal : (spec.sources.map Source.normal).Perm (other.sources.map Source.normal) := by
  obtain ⟨ordered, hperm, hlines⟩ := h.sources
  rw [map_normal_eq hlines]
  exact hperm.map _

theorem Rearranges.paths : (spec.sources.map (·.path)).Perm (other.sources.map (·.path)) := by
  have hpaths := h.normal.map (·.path)
  rwa [List.map_map, List.map_map] at hpaths

/-- All but the metadata is the same. -/
theorem Rearranges.frozen (hnodup : (spec.sources.map (·.path)).Nodup) (metadata : Dict Text Text) :
    { PortableBundle.frozen other with metadata := metadata } = { PortableBundle.frozen spec with metadata := metadata } := by
  have hsort : ((other.sources.map Source.normal).insertionSort fun a b => Text.lt b.path a.path = false) =
      (spec.sources.map Source.normal).insertionSort fun a b => Text.lt b.path a.path = false := by
    refine (SortBy.sort_perm h.normal ?_).symm
    rwa [List.map_map]
  simp only [PortableBundle.frozen, h.name, h.version, h.environment, h.executors, hsort]

end

section

variable [Platform] [Casing]

/-- What a specification has to be for a bundle to be made from it. -/
structure Accepts (spec : PortableSpec) : Prop where
  name : ¬(Text.trimSpace spec.name = [] ∨ Text.trimSpace spec.name ≠ spec.name)
  version : ¬(Text.trimSpace spec.version = [] ∨ Text.trimSpace spec.version ≠ spec.version)
  declarations : ∃ digest, environmentDigest (.ofValue spec.environment) = .ok digest
  sources : ∀ source ∈ spec.sources, source.Accepted
  paths : (spec.sources.map (·.path)).Nodup
  executors : ∀ entry ∈ spec.executors.entries, checkExecutor (.ofValue spec.environment) entry = .ok ()
  metadata : ∀ entry ∈ spec.metadata.entries, checkMetadataKey entry.1 = .ok ()

theorem new_ok {spec : PortableSpec} {bundle : PortableBundle} :
    new spec = .ok bundle ↔ Accepts spec ∧ bundle = frozen spec := by
  constructor
  · intro h
    obtain ⟨hname, h⟩ := guard_ok.1 h
    obtain ⟨hversion, h⟩ := guard_ok.1 h
    obtain ⟨digest, hdigest, h⟩ := bind_ok.1 h
    obtain ⟨sources, hsources, h⟩ := bind_ok.1 h
    obtain ⟨_, hexecutors, h⟩ := bind_ok.1 h
    obtain ⟨_, hmetadata, h⟩ := bind_ok.1 h
    obtain ⟨hall, hpaths, rfl⟩ := addSources_ok.1 hsources
    exact ⟨⟨hname, hversion, ⟨digest, mapError_ok.1 hdigest⟩, hall, hpaths, forM_ok.1 hexecutors, forM_ok.1 hmetadata⟩,
      (pure_ok.1 h).symm⟩
  · rintro ⟨h, rfl⟩
    obtain ⟨digest, hdigest⟩ := h.declarations
    refine guard_ok.2 ⟨h.name, guard_ok.2 ⟨h.version, bind_ok.2 ⟨digest, mapError_ok.2 hdigest, ?_⟩⟩⟩
    exact bind_ok.2 ⟨_, addSources_ok.2 ⟨h.sources, h.paths, rfl⟩,
      bind_ok.2 ⟨_, forM_ok.2 h.executors, bind_ok.2 ⟨_, forM_ok.2 h.metadata, rfl⟩⟩⟩

/-- What passes still passes, if the metadata does. -/
theorem Rearranges.accepts {spec other : PortableSpec} (h : Rearranges spec other) (haccepts : Accepts spec)
    (hmetadata : ∀ entry ∈ other.metadata.entries, checkMetadataKey entry.1 = .ok ()) : Accepts other where
  name := by rw [h.name]; exact haccepts.name
  version := by rw [h.version]; exact haccepts.version
  declarations := by rw [h.environment]; exact haccepts.declarations
  sources := by
    intro source hm
    obtain ⟨original, hmem, heq⟩ := List.mem_map.1 (h.normal.mem_iff.2 (List.mem_map_of_mem hm))
    show validateSourcePath source.normal.path = .ok () ∧ Text.validUTF8 source.normal.content = true
    rw [← heq]
    exact haccepts.sources original hmem
  paths := h.paths.nodup_iff.1 haccepts.paths
  executors := by rw [h.environment, h.executors]; exact haccepts.executors
  metadata := hmetadata

end

/-! ### Reading what was written -/

/-- The entries of a map, added one by one. -/
theorem foldlM_fresh {α : Type} {add : Dict Text α → Value → Except Err (Dict Text α)} {item : Text × α → Value}
    (hadd : ∀ (d : Dict Text α) (entry : Text × α), d.get? entry.1 = none → add d (item entry) = .ok (d.set entry.1 entry.2)) :
    ∀ {entries : List (Text × α)} (done : Dict Text α) {d : Dict Text α}, d.entries = done.entries ++ entries →
      (entries.map item).foldlM add done = .ok d
  | [], done, d, h => by
    have heq : done = d := Dict.ext (by rw [h, List.append_nil])
    rw [heq]
    rfl
  | entry :: entries, done, d, h => by
    have hordered : Assoc.Ordered (done.entries ++ entry :: entries) := h ▸ d.ordered
    have hlast : ∀ x ∈ done.entries, x.1 < entry.1 := fun x hx =>
      (List.pairwise_append.1 hordered).2.2 x hx entry (List.mem_cons_self ..)
    have hnone : done.get? entry.1 = none := by
      exact Assoc.get?_eq_none.2 fun v hm => List.lt_irrefl _ (hlast (entry.1, v) hm)
    have hset : (done.set entry.1 entry.2).entries = done.entries ++ [entry] := Assoc.set_of_lt hlast
    rw [List.map_cons, List.foldlM_cons, hadd done entry hnone]
    refine foldlM_fresh hadd (done.set entry.1 entry.2) ?_
    rw [hset, h, List.append_assoc]
    rfl

theorem settleItems_eq_map {α : Type} {element : Schema} {f : α → Value} (xs : List α) :
    settleItems element (xs.map f) = xs.map fun x => settle element (f x) := by
  induction xs with
  | nil => rfl
  | cons x xs ih => rw [List.map_cons, settleItems, ih, List.map_cons]

/-- The items of a slice that may be left out. -/
theorem items_settled {α : Type} {element : Schema} {f : α → Value} (omitEmpty : List Text) (field : Text) (xs : List α) :
    (if isOmitted omitEmpty field (.slice (xs.map f)) then zero (.slice element)
      else settle (.slice element) (.slice (xs.map f))).items = xs.map fun x => settle element (f x) := by
  split
  · rename_i h
    have hnil := List.isEmpty_iff.1 (Bool.and_eq_true_iff.1 h).2
    rw [List.map_eq_nil_iff.1 hnil]
    rfl
  · exact settleItems_eq_map xs

section

variable [Casing]

def executorValue (entry : Text × DescriptorDocument) : Value :=
  .struct [("verb", .string entry.1), ("descriptor", entry.2.toValue)]

def metadataValue (entry : Text × Text) : Value := DescriptorKV.toValue ⟨entry.1, entry.2⟩

theorem addExecutor_settle (executors : Dict Text DescriptorDocument) (entry : Text × DescriptorDocument)
    (h : executors.get? entry.1 = none) :
    addExecutor executors (settle namedDescriptorSchema (executorValue entry)) = .ok (executors.set entry.1 entry.2) := by
  have hadd : addExecutor executors (settle namedDescriptorSchema (executorValue entry)) =
      if (executors.get? entry.1).isSome then _ else .ok (executors.set entry.1 (.ofValue (.struct
        (settleFields descriptorOmitEmpty descriptorFields entry.2.toValue.fields)))) := rfl
  rw [hadd, h, entry.2.ofValue_settle]
  rfl

omit [Casing] in
theorem addMetadata_settle (metadata : Dict Text Text) (entry : Text × Text) (h : metadata.get? entry.1 = none) :
    addMetadata metadata (settle kvSchema (metadataValue entry)) = .ok (metadata.set entry.1 entry.2) := by
  have hadd : addMetadata metadata (settle kvSchema (metadataValue entry)) =
      if (metadata.get? entry.1).isSome then _ else .ok (metadata.set entry.1 entry.2) := rfl
  rw [hadd, h]
  rfl

theorem ofDocument_settle [Platform] (bundle : PortableBundle) : ofDocument (settle documentSchema bundle.document) =
    new {
      name := bundle.name, version := bundle.version, sources := bundle.sources
      environment := settle environmentSchema bundle.environment, executors := bundle.executors
      metadata := bundle.metadata } := by
  have hsources : (settleItems sourceSchema (bundle.sources.map sourceValue)).map sourceOf = bundle.sources := by
    rw [settleItems_eq_map, List.map_map]
    exact List.map_id' bundle.sources
  have hexecutors : ((settle documentSchema bundle.document).field "executors").items.foldlM addExecutor .empty =
      .ok bundle.executors := by
    have hitems : ((settle documentSchema bundle.document).field "executors").items = _ :=
      items_settled ["executors", "metadata"] "executors" bundle.executors.entries
    rw [hitems]
    exact foldlM_fresh addExecutor_settle .empty (List.nil_append _).symm
  have hmetadata : ((settle documentSchema bundle.document).field "metadata").items.foldlM addMetadata .empty =
      .ok bundle.metadata := by
    have hitems : ((settle documentSchema bundle.document).field "metadata").items = _ :=
      items_settled ["executors", "metadata"] "metadata" bundle.metadata.entries
    rw [hitems]
    exact foldlM_fresh addMetadata_settle .empty (List.nil_append _).symm
  have hformat : ((settle documentSchema bundle.document).field "format_version").text = bundleFormatVersion := rfl
  unfold ofDocument
  rw [if_neg (not_not.2 hformat), hexecutors, hmetadata]
  show new { name := bundle.name, version := bundle.version
             sources := (settleItems sourceSchema (bundle.sources.map sourceValue)).map sourceOf
             environment := settle environmentSchema bundle.environment, executors := bundle.executors
             metadata := bundle.metadata } = _
  rw [hsources]

theorem documentSchema_sound : documentSchema.Sound := by
  have hdescriptor : descriptorSchema.Sound :=
    ⟨by show (descriptorFields.map Prod.fst).Nodup; decide,
      by show ∀ field ∈ descriptorFields, _; decide, trivial, trivial, trivial, kvSchema_sound, kvSchema_sound, trivial⟩
  have hnamed : namedDescriptorSchema.Sound := by
    refine ⟨?_, ?_, trivial, hdescriptor, trivial⟩
    · show ([("verb" : Text), ("descriptor" : Text)]).Nodup
      decide
    · have hnames : ∀ name ∈ [("verb" : Text), ("descriptor" : Text)], Text.validUTF8 name = true := by decide
      exact fun field hm => hnames field.1 (List.mem_map_of_mem hm)
  refine ⟨?_, ?_, trivial, trivial, trivial, ⟨by decide, by decide, trivial, trivial, trivial⟩, environmentSchema_sound, hnamed,
    kvSchema_sound, trivial⟩
  · show ([("format_version" : Text), ("name" : Text), ("version" : Text), ("sources" : Text), ("environment" : Text),
      ("executors" : Text), ("metadata" : Text)]).Nodup
    decide
  · have hnames : ∀ name ∈ [("format_version" : Text), ("name" : Text), ("version" : Text), ("sources" : Text),
        ("environment" : Text), ("executors" : Text), ("metadata" : Text)], Text.validUTF8 name = true := by decide
    exact fun field hm => hnames field.1 (List.mem_map_of_mem hm)

omit [Casing] in
/-- The texts of a specification are UTF-8, those of its declarations included. The contents of sources are checked when a
bundle is made. -/
structure Utf8 (spec : PortableSpec) : Prop where
  name : IsUtf8 spec.name
  version : IsUtf8 spec.version
  paths : ∀ source ∈ spec.sources, IsUtf8 source.path
  environment : Fits IsUtf8 environmentSchema spec.environment
  executors : ∀ entry ∈ spec.executors.entries, IsUtf8 entry.1 ∧ entry.2.Utf8
  metadata : ∀ entry ∈ spec.metadata.entries, IsUtf8 entry.1 ∧ IsUtf8 entry.2

variable [Platform]

theorem fits_document {spec : PortableSpec} (hutf8 : Utf8 spec) (h : Accepts spec) :
    Fits IsUtf8 documentSchema (frozen spec).document := by
  refine ⟨rfl, by show Text.validUTF8 _ = true; decide, rfl, hutf8.name, rfl, hutf8.version, rfl, fitsItems_map fun source hm => ?_, rfl, ?_,
    rfl, fitsItems_map fun entry hm => ?_, rfl, fitsItems_map fun entry hm => ?_, rfl⟩
  · obtain ⟨original, hmem, rfl⟩ := mem_frozen_sources hm
    exact ⟨rfl, hutf8.paths original hmem, rfl, (h.sources original hmem).2, rfl⟩
  · show Fits IsUtf8 environmentSchema (cloneEnvironment spec.environment)
    rw [cloneEnvironment_eq hutf8.environment]
    exact fits_settle _ hutf8.environment
  · obtain ⟨hverb, hdescriptor⟩ := hutf8.executors entry hm
    obtain ⟨_, -, hvalid⟩ := bind_ok.1 (h.executors entry hm)
    exact ⟨rfl, hverb, rfl, DescriptorDocument.fits hdescriptor (mapError_ok.1 hvalid), rfl⟩
  · exact DescriptorKV.fits (hutf8.metadata entry hm)

/-- The bytes of a bundle are those of that bundle. -/
theorem parse_bytes {spec : PortableSpec} (hutf8 : Utf8 spec) (h : Accepts spec) :
    parse (frozen spec).bytes = .ok (frozen spec) := by
  have hread : unmarshalStrict documentSchema (frozen spec).bytes = some (settle documentSchema (frozen spec).document) :=
    unmarshalStrict_marshal documentSchema_sound (fits_document hutf8 h) (by show 6 ≤ 10000; decide)
  have henvironment := cloneEnvironment_eq hutf8.environment
  have hsettled := fits_settle _ hutf8.environment
  have hstable : settle environmentSchema (frozen spec).environment = settle environmentSchema spec.environment := by
    show settle environmentSchema (cloneEnvironment spec.environment) = _
    rw [henvironment, settle_settle _ hutf8.environment]
  rw [parse, hread]
  show ofDocument (settle documentSchema (frozen spec).document) = _
  rw [ofDocument_settle, hstable]
  refine new_ok.2 ⟨?_, ?_⟩
  · refine ⟨h.name, h.version, ?_, fun source hm => ?_, ?_, ?_, h.metadata⟩
    · rw [environment_settle hutf8.environment]
      exact h.declarations
    · obtain ⟨original, hmem, rfl⟩ := mem_frozen_sources hm
      exact (h.sources original hmem).normal
    · exact (frozen_sources_paths spec).nodup_iff.2 h.paths
    · rw [environment_settle hutf8.environment]
      exact h.executors
  · have hclone : cloneEnvironment (settle environmentSchema spec.environment) = cloneEnvironment spec.environment := by
      rw [cloneEnvironment_eq hsettled, settle_settle _ hutf8.environment, henvironment]
    have hsources := frozen_sources_normal spec
    show frozen spec = PortableBundle.mk spec.name spec.version _ _ spec.executors spec.metadata
    rw [hsources, hclone]
    rfl

/-! ### Files and layers -/

def withoutMetadata (bundle : PortableBundle) : PortableBundle := { bundle with metadata := .empty }

/-- What a tar file of one regular entry reads back as. -/
def PacksBack [Archive] (name data : Text) : Prop :=
  Archive.unpack (Archive.pack name data) = ([⟨name, true, data.length, some data⟩], none)

omit [Platform] [Casing] in
theorem readLayer_manifest (manifest : Text) :
    readLayer none [⟨ociManifestPath, true, manifest.length, some manifest⟩] = .ok (some manifest) := by
  rw [readLayer, if_neg (by simp)]
  dsimp only [Option.map_some]
  rw [List.take_of_length_le (Nat.le_succ _), if_pos rfl]
  rfl

theorem parseOCI_ociBytes [Archive] {bundle : PortableBundle} (harchive : PacksBack ociManifestPath bundle.bytes) :
    parseOCI bundle.ociBytes = parse bundle.bytes := by
  unfold parseOCI ociBytes
  rw [harchive, readLayer_manifest]
  rfl

/-- Two bundles that are written alike. -/
structure WrittenAlike [Archive] (a b : PortableBundle) : Prop where
  bytes : a.bytes = b.bytes
  ociBytes : a.ociBytes = b.ociBytes
  digest : a.digest = b.digest

omit [Platform] [Casing] in
/-- Declarations in UTF-8 are the same in a bundle, and in the copies it hands out. -/
theorem environment_copies {spec : PortableSpec} (h : Fits IsUtf8 environmentSchema spec.environment) :
    Environment.ofValue (frozen spec).environment = .ofValue spec.environment ∧
      Environment.ofValue (frozen spec).environmentCopy = .ofValue spec.environment := by
  have hcopy : (frozen spec).environment = settle environmentSchema spec.environment := cloneEnvironment_eq h
  have hagain : (frozen spec).environmentCopy = settle environmentSchema spec.environment := by
    rw [environmentCopy, hcopy, cloneEnvironment_eq (fits_settle _ h), settle_settle _ h]
  rw [hcopy, hagain, environment_settle h]
  exact ⟨rfl, rfl⟩

/-- A bundle goes through its file and its layer, keeps the digest of its declarations, also in what `Environment` returns,
and is the same but for metadata whatever the order of its sources and the endings of their lines. -/
theorem bundle_round_trip [Archive] {spec : PortableSpec} {bundle : PortableBundle} (hutf8 : Utf8 spec)
    (hnew : new spec = .ok bundle) (harchive : PacksBack ociManifestPath bundle.bytes) :
    (∃ read, parse bundle.bytes = .ok read ∧ WrittenAlike read bundle) ∧
      (∃ read, parseOCI bundle.ociBytes = .ok read ∧ WrittenAlike read bundle) ∧
      environmentDigest (.ofValue bundle.environment) = environmentDigest (.ofValue spec.environment) ∧
      environmentDigest (.ofValue bundle.environmentCopy) = environmentDigest (.ofValue spec.environment) ∧
      ∀ other, Rearranges spec other →
        ((∀ entry ∈ other.metadata.entries, checkMetadataKey entry.1 = .ok ()) → ∃ changed, new other = .ok changed) ∧
        ∀ changed, new other = .ok changed →
          changed.withoutMetadata.bytes = bundle.withoutMetadata.bytes ∧ changed.digest = bundle.digest := by
  obtain ⟨haccepts, rfl⟩ := new_ok.1 hnew
  have hparse := parse_bytes hutf8 haccepts
  obtain ⟨hfrozen, hcopy⟩ := environment_copies hutf8.environment
  refine ⟨⟨_, hparse, rfl, rfl, rfl⟩, ⟨_, (parseOCI_ociBytes harchive).trans hparse, rfl, rfl, rfl⟩,
    congrArg _ hfrozen, congrArg _ hcopy, fun other h => ⟨?_, ?_⟩⟩
  · exact fun hmetadata => ⟨_, new_ok.2 ⟨h.accepts haccepts hmetadata, rfl⟩⟩
  · intro changed hchanged
    obtain ⟨-, rfl⟩ := new_ok.1 hchanged
    have hsame := h.frozen haccepts.paths .empty
    have hdigest : ∀ bundle : PortableBundle, bundle.digest = bundle.withoutMetadata.digest := fun _ => rfl
    refine ⟨congrArg bytes hsame, ?_⟩
    rw [hdigest, hdigest (frozen spec)]
    exact congrArg digest hsame

end

/-! ### A bundle of two sources -/

def sampleVerb (required : Value) : Value :=
  .struct [("arguments", .map [("x", .string "string")]), ("required_args", required), ("result_type", .string "void"),
    ("inverse_verb", .string []), ("retry_policy", .struct [("max_attempts", .uint 1), ("initial_backoff_millis", .uint 0),
      ("max_backoff_millis", .uint 0)]), ("idempotency_policy", .string "none"), ("fencing_required", .bool false)]

def sampleDescriptor : DescriptorDocument where
  type := descriptorEmbedded
  resolverID := "local"
  reference := "warehouse"
  headers := [⟨"Accept", "text/plain"⟩]
  settings := []

/-- `required` is what the verb lists as required. -/
def sampleSpec (required : Value) : PortableSpec where
  name := "orders"
  version := "1"
  sources := [⟨"b.eff", [0x61, 0x0D, 0x0A, 0x62]⟩, ⟨"a.eff", []⟩]
  environment := .struct [("facts", .map [("order.id", .string "string")]), ("verbs", .map [("ship", sampleVerb required)]),
    ("functions", .nilMap), ("types", .map [])]
  executors := .ofEntries [(("ship" : Text), sampleDescriptor)]
  metadata := .ofEntries [(("owner" : Text), ("team" : Text))]

/-- Tar files of one entry, as the writer makes them when the name and the size fit into the header. -/
@[reducible] def plainArchive : Archive where
  pack := Tar.pack
  unpack t :=
    let (entries, ended) := Tar.unpack (t.length + 1) t
    (entries.map fun entry => ⟨entry.name, entry.isRegular, entry.size, some entry.content⟩,
      if ended then none else some (.new "archive/tar: invalid tar header"))

theorem sampleSpec_utf8 : Utf8 (sampleSpec .nilSlice) where
  name := by decide
  version := by decide
  paths := by decide
  environment := by
    have hstring : ∀ t : Text, IsUtf8 t → Fits IsUtf8 .string (.string t) := fun _ h => h
    have huint : ∀ bits n : Nat, n < 2 ^ bits → Fits IsUtf8 (.uint bits) (.uint n) := fun _ _ h => h
    have hretry : Fits IsUtf8 retryPolicySchema (.struct [("max_attempts", .uint 1), ("initial_backoff_millis", .uint 0),
        ("max_backoff_millis", .uint 0)]) :=
      ⟨rfl, huint _ _ (by decide), rfl, huint _ _ (by decide), rfl, huint _ _ (by decide), rfl⟩
    have hverb : Fits IsUtf8 verbContractSchema (sampleVerb .nilSlice) :=
      ⟨rfl, ⟨List.pairwise_singleton _ _, by decide, hstring _ (by decide), trivial⟩, rfl, trivial,
        rfl, hstring _ (by decide), rfl, hstring _ (by decide), rfl, hretry, rfl, hstring _ (by decide), rfl, trivial, rfl⟩
    exact ⟨rfl, ⟨List.pairwise_singleton _ _, by decide, hstring _ (by decide), trivial⟩,
      rfl, ⟨List.pairwise_singleton _ _, by decide, hverb, trivial⟩, rfl, trivial, rfl, ⟨List.Pairwise.nil, trivial⟩, rfl⟩
  executors := by
    have hdescriptor : sampleDescriptor.Utf8 :=
      ⟨by decide, by decide, by decide, List.forall_mem_singleton.2 ⟨by decide, by decide⟩, nofun⟩
    exact List.forall_mem_singleton.2 ⟨by decide, hdescriptor⟩
  metadata := List.forall_mem_singleton.2 ⟨by decide, by decide⟩

section

attribute [local instance] reference asciiCasing plainArchive

theorem bundle_round_trip_sample : ∃ bundle, new (sampleSpec .nilSlice) = .ok bundle ∧
    (∃ read, parse bundle.bytes = .ok read ∧ WrittenAlike read bundle) ∧
    ∃ read, parseOCI bundle.ociBytes = .ok read ∧ WrittenAlike read bundle := by
  have hnew : (new (sampleSpec .nilSlice)).toOption.any (fun bundle => decide (Archive.unpack (Archive.pack ociManifestPath bundle.bytes) =
      ([⟨ociManifestPath, true, bundle.bytes.length, some bundle.bytes⟩], none))) = true := by decide +kernel
  obtain ⟨bundle, hbundle, hpacks⟩ := ok_of_any hnew
  have hround := bundle_round_trip sampleSpec_utf8 hbundle (of_decide_eq_true (p := _ = _) hpacks)
  exact ⟨bundle, hbundle, hround.1, hround.2.1⟩

end

end PortableBundle

end Effectus

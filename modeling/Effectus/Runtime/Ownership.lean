import Effectus.Lib.Owned
import Effectus.Runtime.Artifact
import Effectus.Runtime.Build

/-!
Generations and the resources of their executors. A resolver may return something to close along with an executor. Until a
generation is made the builder holds what was returned, and closes it in reverse order wherever it gives up; from then on the
generation does, and closes it once.
-/

namespace Effectus

open JsonSchema Invocation

/-- What is closed, by its identity. -/
abbrev Closer := Nat

abbrev Acquisitions := Owned.Trace Closer

/-! ### Resolving -/

/-- What a resolver returns: whether there is an executor, and its closer. -/
structure ResolverReply where
  hasExecutor : Bool
  closer : Option Closer
  err : Option Err

/-- The resolvers by their IDs. What one returns may differ from call to call. -/
structure OwningRegistry where
  ids : List Text
  reply : Text → Nat → Descriptor → ResolverReply

section

variable [Casing]

def Descriptor.validate (descriptor : Descriptor) : Except Err Unit :=
  match decode descriptorDocumentSchema (zero descriptorDocumentSchema) descriptor.document with
  | none => .error (.new "decode invocation descriptor")
  | some v => (DescriptorDocument.ofValue v).validate

/-- `Registry.Resolve`. An executor that is nil is no executor, and its closer is closed here. -/
def OwningRegistry.resolve (registry : OwningRegistry) (descriptor : Descriptor) (t : Acquisitions) :
    Except Err (Option Closer) × Acquisitions :=
  match descriptor.validate with
  | .error err => (.error err, t)
  | .ok () =>
    let id := descriptor.resolverID
    if id = [] then (.error (.new "callback-only invocation descriptor cannot be resolved"), t)
    else if registry.ids.contains id = false then
      (.error (.new (("invocation resolver " : Text) ++ Text.quote id ++ (" is not registered" : Text))), t)
    else
      let reply := registry.reply id t.calls descriptor
      match reply.err with
      | some err =>
        (.error (err.under (("resolve invocation descriptor " : Text) ++ Text.quote id)), t.called reply.closer false)
      | none =>
        if reply.hasExecutor then (.ok reply.closer, t.called reply.closer true)
        else
          (.error (.new (("invocation resolver " : Text) ++ Text.quote id ++ (" returned a nil executor" : Text))),
            reply.closer.toList.foldl Owned.Trace.release (t.called reply.closer false))

end

/-! ### Owning -/

/-- A generation with what it closes. -/
structure OwnedGeneration where
  generation : Generation
  closers : List Closer
  closed : Bool
  closeErr : Option Err

/-- `Generation.Close`, where `fail` says which of its closers fail. The first error is kept. -/
def OwnedGeneration.close (fail : Closer → Option Err) (g : OwnedGeneration) (t : Acquisitions) :
    OwnedGeneration × Acquisitions :=
  if g.closed then (g, t)
  else
    let (t, err) := g.closers.reverse.foldl (fun state closer => (Owned.Trace.release state.1 closer, state.2.or (fail closer)))
      (t, g.closeErr)
    ({ g with closed := true, closeErr := err }, t)

/-- Closed a number of times, with other closers failing each time. -/
def OwnedGeneration.closeTimes (fail : Nat → Closer → Option Err) : Nat → OwnedGeneration × Acquisitions →
    OwnedGeneration × Acquisitions
  | 0, state => state
  | n + 1, state =>
    let state := closeTimes fail n state
    state.1.close (fail n) state.2

/-! ### Compiling -/

structure OwningBuildConfig where
  bundle : SourceBundle
  compileOptions : CompileOptions
  resolvers : Option OwningRegistry
  functionIDs : Dict Text Text
  production : Bool

def checkPlansDescribed (descriptors : Dict Text Descriptor) (plans : List Plan) : Except Err Unit :=
  plans.forM fun plan => plan.steps.forM fun step => do
    checkDescribed descriptors step.verb
    match step.compensation with
    | some compensation => checkDescribed descriptors compensation.inverseVerb
    | none => .ok ()

section

variable [Casing]

/-- The executor of one declared descriptor. -/
def acquireDeclared (config : OwningBuildConfig) (entry : Text × Descriptor) (t : Acquisitions) :
    Except Err (Option Closer) × Acquisitions :=
  if config.production ∧ entry.2.resolverID = [] then
    (.error (.new (("compile generation: checked verb " : Text) ++ Text.quote entry.1 ++ (" is callback-only" : Text))), t)
  else
    match config.resolvers with
    | none =>
      (.error (.new (("compile generation: invocation resolver registry is required for verb " : Text) ++
        Text.quote entry.1)), t)
    | some registry =>
      let (result, t) := registry.resolve entry.2 t
      (result.mapError fun err => err.under (("compile generation: verb " : Text) ++ Text.quote entry.1), t)

variable [Platform] [Protobuf]

/-- `CompileGeneration`. -/
def compileOwned (lower : LowerSources) (config : OwningBuildConfig) (t : Acquisitions) :
    Except Err OwnedGeneration × Acquisitions :=
  match compileChecked lower config.bundle config.compileOptions with
  | .error err => (.error err, t)
  | .ok checked =>
    let descriptors := config.bundle.executors
    match checkPlansDescribed descriptors checked.artifact.plans with
    | .error err => (.error err, t)
    | .ok () =>
      match Owned.acquireEach (acquireDeclared config) descriptors.entries [] t with
      | (.error err, t) => (.error err, t)
      | (.ok closers, t) =>
        let generation := newGeneration {
          checked := checked, environment := config.bundle.environment, ruleset := config.bundle.name
          version := config.bundle.version, executorDescriptors := descriptors, functionIDs := config.functionIDs
          sourceDigest := config.bundle.digest, executors := descriptors.entries.map Prod.fst
          production := config.production }
        match generation with
        | .error err => (.error (err.under "compile generation"), t.releaseAll closers)
        | .ok generation => (.ok ⟨generation, closers, false, none⟩, t)

end

/-! ### Recovering -/

section

variable [Casing]

def executorEntrySchema : Schema := .struct [("name", .string), ("descriptor", descriptorSchema)] []

def executorEntry (v : Value) : Text × Descriptor :=
  ((v.field "name").text, descriptorOf (.ofValue (v.field "descriptor")))

/-- One entry of the manifest. -/
def acquireEntry (registry : OwningRegistry) (environment : Environment) (entry : Text × Descriptor) (t : Acquisitions) :
    Except Err (Option Closer) × Acquisitions :=
  if (environment.verbs.get? entry.1).isNone then
    (.error (.new (("executor " : Text) ++ Text.quote entry.1 ++ (" has no checked contract" : Text))), t)
  else
    let (result, t) := registry.resolve entry.2 t
    (result.mapError fun err => err.under (("resolve verb " : Text) ++ Text.quote entry.1), t)

variable [Platform] [Protobuf] [ProtobufReader]

/-- `ResolveGeneration`. A generation of another digest is closed, and `fail` says which of its closers fail. -/
def resolveOwned (registry : OwningRegistry) (fail : Closer → Option Err) (artifact : ExecutionArtifact) (t : Acquisitions) :
    Except Err OwnedGeneration × Acquisitions :=
  match strictArtifactJSON environmentSchema artifact.environment with
  | .error err => (.error (err.under "decode checked environment"), t)
  | .ok environment =>
    let environment := Environment.ofValue environment
    match parseArtifact artifact.irBytes environment Limits.zero with
    | .error err => (.error (err.under "parse checked artifact"), t)
    | .ok checked =>
      if checked.digest ≠ artifact.irDigest then (.error (.new "checked artifact digest mismatch"), t)
      else
        match strictArtifactJSON (.slice executorEntrySchema) artifact.executorManifest with
        | .error err => (.error (err.under "decode executor manifest"), t)
        | .ok manifest =>
          let entries := manifest.items.map executorEntry
          match Owned.acquireEach (acquireEntry registry environment) entries [] t with
          | (.error err, t) => (.error err, t)
          | (.ok closers, t) =>
            match strictArtifactJSON identitySchema artifact.functionManifest with
            | .error err => (.error (err.under "decode generation identity"), t.releaseAll closers)
            | .ok identity =>
              let generation := newGeneration {
                checked := checked, environment := environment, ruleset := (identity.field "ruleset").text
                version := (identity.field "version").text, executorDescriptors := .ofEntries entries
                functionIDs := (identity.field "function_ids").dict Value.text, sourceDigest := artifact.sourceDigest
                executors := entries.map Prod.fst, production := true }
              match generation with
              | .error err => (.error err, t.releaseAll closers)
              | .ok generation =>
                let owned : OwnedGeneration := ⟨generation, closers, false, none⟩
                if generation.digest ≠ artifact.generationDigest then
                  (.error (.new "resolved generation digest does not match pinned artifact"), (owned.close fail t).2)
                else (.ok owned, t)

end

end Effectus

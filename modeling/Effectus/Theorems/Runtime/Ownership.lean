import Effectus.Runtime.Ownership
import Effectus.Theorems.Runtime.Resolver

/-!
One owner for what executors hold. Wherever building a generation fails, everything the resolvers returned is closed once;
where it succeeds nothing is, and the generation closes it all, once and in reverse order, however often it is closed.
-/

namespace Effectus

open Owned Fallible

/-! ### Resolvers -/

namespace OwningRegistry

/-- A closer that some resolver may return from the `n`-th call. -/
def Source (registry : OwningRegistry) (n : Nat) (closer : Closer) : Prop :=
  ∃ id descriptor, (registry.reply id n descriptor).closer = some closer

/-- The resolvers return a closer only without an error, and never the same one twice. -/
structure Fair (registry : OwningRegistry) : Prop where
  quiet : ∀ id n descriptor, (registry.reply id n descriptor).err.isSome → (registry.reply id n descriptor).closer = none
  distinct : ∀ m n closer, registry.Source m closer → registry.Source n closer → m = n

end OwningRegistry

theorem acquires_mapError {ρ ε ε' : Type} {source : Nat → ρ → Prop} {t t' : Owned.Trace ρ} {result : Except ε (Option ρ)}
    (h : Acquires source t result t') (f : ε → ε') : Acquires source t (result.mapError f) t' := by
  have hnone : ∀ {result : Except ε (Option ρ)}, (∀ r, result ≠ .ok (some r)) → ∀ r, result.mapError f ≠ .ok (some r) :=
    fun h r he => h r (mapError_ok.1 he)
  cases h with
  | idle h => exact .idle (hnone h)
  | none h isKept => exact .none (hnone h) isKept
  | kept h => exact .kept h
  | rejected h err => exact .rejected h (f err)

theorem Owned.Acquires.mono {ρ ε : Type} {source source' : Nat → ρ → Prop} {t t' : Owned.Trace ρ}
    {result : Except ε (Option ρ)} (h : Acquires source t result t') (hsource : ∀ n r, source n r → source' n r) :
    Acquires source' t result t' := by
  cases h with
  | idle h => exact .idle h
  | none h isKept => exact .none h isKept
  | kept h => exact .kept (hsource _ _ h)
  | rejected h err => exact .rejected (hsource _ _ h) err

section

variable [Casing]

theorem resolve_acquires {registry : OwningRegistry} (hfair : registry.Fair) (descriptor : Descriptor) (t : Acquisitions) :
    Acquires registry.Source t (registry.resolve descriptor t).1 (registry.resolve descriptor t).2 := by
  unfold OwningRegistry.resolve
  split
  · exact .idle nofun
  · dsimp only
    split
    · exact .idle nofun
    · split
      · exact .idle nofun
      · have hquiet := hfair.quiet descriptor.resolverID t.calls descriptor
        have hsource : ∀ closer, (registry.reply descriptor.resolverID t.calls descriptor).closer = some closer →
            registry.Source t.calls closer := fun closer h => ⟨_, _, h⟩
        generalize registry.reply descriptor.resolverID t.calls descriptor = reply at hquiet hsource ⊢
        split
        · rename_i err herr
          rw [hquiet (by rw [herr]; rfl)]
          exact .none nofun false
        · split
          · cases hcloser : reply.closer with
            | none => exact .none nofun true
            | some closer => exact .kept (hsource closer hcloser)
          · cases hcloser : reply.closer with
            | none => exact .none nofun false
            | some closer => exact .rejected (hsource closer hcloser) _

end

/-! ### Closing -/

namespace OwnedGeneration

theorem foldl_release_fst (fail : Closer → Option Err) (closers : List Closer) (t : Acquisitions) (err : Option Err) :
    (closers.foldl (fun state closer => (Owned.Trace.release state.1 closer, state.2.or (fail closer))) (t, err)).1 =
      closers.foldl Owned.Trace.release t := by
  induction closers generalizing t err with
  | nil => rfl
  | cons closer closers ih => rw [List.foldl_cons, List.foldl_cons, ih]

theorem close_open {fail : Closer → Option Err} {g : OwnedGeneration} (h : g.closed = false) (t : Acquisitions) :
    (g.close fail t).1.closed = true ∧ (g.close fail t).2 = t.releaseAll g.closers := by
  unfold close
  rw [if_neg (by simp [h])]
  exact ⟨rfl, foldl_release_fst ..⟩

/-- The first time everything is closed, and then nothing. -/
theorem closeTimes_succ (fail : Nat → Closer → Option Err) {g : OwnedGeneration} (h : g.closed = false) (t : Acquisitions) :
    ∀ n, (closeTimes fail (n + 1) (g, t)).1.closed = true ∧ (closeTimes fail (n + 1) (g, t)).2 = t.releaseAll g.closers
  | 0 => close_open h t
  | n + 1 => by
    obtain ⟨hclosed, ht⟩ := closeTimes_succ fail h t n
    have hagain : closeTimes fail (n + 2) (g, t) = closeTimes fail (n + 1) (g, t) := by
      show (closeTimes fail (n + 1) (g, t)).1.close _ _ = _
      unfold close
      rw [if_pos hclosed]
    rw [hagain]
    exact ⟨hclosed, ht⟩

end OwnedGeneration

/-! ### Building -/

/-- Before anything is acquired. -/
def noAcquisitions : Acquisitions := ⟨0, [], []⟩

/-- Where there is no generation everything returned is closed once, what was accepted in reverse order. Where there is
one nothing is closed, and it closes everything once in reverse order, however often it is told to. -/
def OwnedOnce : Except Err OwnedGeneration × Acquisitions → Prop
  | (.error _, t) => Settled t
  | (.ok g, t) => t.released = [] ∧ t.all.Nodup ∧
    ∀ (fail : Nat → Closer → Option Err) (n : Nat),
      (OwnedGeneration.closeTimes fail (n + 1) (g, t)).2.released = t.all.reverse

section

variable {source : Nat → Closer → Prop}

theorem settled_start : Settled noAcquisitions := (held_start (fun _ _ => False)).settled

/-- A new generation takes over what is held. -/
theorem Owned.Held.ownedOnce {t : Acquisitions} {closers : List Closer} (h : Held source t closers) (hclean : t.rejected = [])
    (generation : Generation) : OwnedOnce (.ok ⟨generation, closers, false, Option.none⟩, t) := by
  obtain ⟨hreleased, rfl⟩ := h.clean hclean
  refine ⟨hreleased, h.nodup, fun fail n => ?_⟩
  rw [(OwnedGeneration.closeTimes_succ fail rfl t n).2, Trace.releaseAll_eq, hreleased]
  rfl

end

section

variable [Casing]

/-- The closers a builder may come by. -/
def OwningBuildConfig.Source (config : OwningBuildConfig) (n : Nat) (closer : Closer) : Prop :=
  ∃ registry ∈ config.resolvers, registry.Source n closer

theorem acquireDeclared_acquires {config : OwningBuildConfig} (hfair : ∀ registry ∈ config.resolvers, registry.Fair)
    (entry : Text × Descriptor) (t : Acquisitions) :
    Acquires config.Source t (acquireDeclared config entry t).1 (acquireDeclared config entry t).2 := by
  unfold acquireDeclared
  split
  · exact .idle nofun
  · split
    · exact .idle nofun
    · rename_i registry hregistry
      have hsource : ∀ n closer, registry.Source n closer → config.Source n closer := fun _ _ h => ⟨registry, hregistry, h⟩
      exact acquires_mapError ((resolve_acquires (hfair registry hregistry) entry.2 t).mono hsource) _

theorem acquireEntry_acquires {registry : OwningRegistry} (hfair : registry.Fair) (environment : Environment)
    (entry : Text × Descriptor) (t : Acquisitions) :
    Acquires registry.Source t (acquireEntry registry environment entry t).1 (acquireEntry registry environment entry t).2 := by
  unfold acquireEntry
  split
  · refine .idle ?_
    rintro _ ⟨⟩
  · exact acquires_mapError (resolve_acquires hfair entry.2 t) _

variable [Platform] [Protobuf]

theorem compileOwned_ownedOnce (lower : LowerSources) {config : OwningBuildConfig}
    (hfair : ∀ registry ∈ config.resolvers, registry.Fair) : OwnedOnce (compileOwned lower config noAcquisitions) := by
  have hdistinct : ∀ m n closer, config.Source m closer → config.Source n closer → m = n := by
    rintro m n closer ⟨registry, hm, hsource⟩ ⟨other, hother, hsource'⟩
    cases Option.mem_unique hm hother
    exact (hfair registry hm).distinct m n closer hsource hsource'
  unfold compileOwned
  split
  · exact settled_start
  · dsimp only
    split
    · exact settled_start
    · have hall := acquireEach_start hdistinct (acquireDeclared_acquires hfair) config.bundle.executors.entries
      rw [← noAcquisitions] at hall
      generalize Owned.acquireEach (acquireDeclared config) config.bundle.executors.entries [] noAcquisitions = out at hall ⊢
      obtain ⟨result, t⟩ := out
      cases result with
      | error err => exact hall
      | ok closers =>
        dsimp only
        split
        · exact hall.1.settled
        · exact hall.1.ownedOnce hall.2 _

theorem resolveOwned_ownedOnce [ProtobufReader] {registry : OwningRegistry} (hfair : registry.Fair)
    (fail : Closer → Option Err) (artifact : ExecutionArtifact) :
    OwnedOnce (resolveOwned registry fail artifact noAcquisitions) := by
  unfold resolveOwned
  split
  · exact settled_start
  · rename_i environment _
    dsimp only
    split
    · exact settled_start
    · split
      · exact settled_start
      · split
        · exact settled_start
        · rename_i manifest _
          have hall := acquireEach_start hfair.distinct (acquireEntry_acquires hfair (.ofValue environment))
            (manifest.items.map executorEntry)
          rw [← noAcquisitions] at hall
          generalize Owned.acquireEach (acquireEntry registry (.ofValue environment)) (manifest.items.map executorEntry) []
            noAcquisitions = out at hall ⊢
          obtain ⟨result, t⟩ := out
          cases result with
          | error err => exact hall
          | ok closers =>
            dsimp only
            split
            · exact hall.1.settled
            · split
              · exact hall.1.settled
              · split
                · show Settled (OwnedGeneration.close fail _ t).2
                  rw [(OwnedGeneration.close_open rfl t).2]
                  exact hall.1.settled
                · exact hall.1.ownedOnce hall.2 _

/-- Whatever the bundle or the artifact and wherever it fails: what executors hold has one owner. -/
theorem closers_owned_once [ProtobufReader] :
    (∀ (lower : LowerSources) (config : OwningBuildConfig), (∀ registry ∈ config.resolvers, registry.Fair) →
      OwnedOnce (compileOwned lower config noAcquisitions)) ∧
    ∀ registry : OwningRegistry, registry.Fair → ∀ (fail : Closer → Option Err) (artifact : ExecutionArtifact),
      OwnedOnce (resolveOwned registry fail artifact noAcquisitions) :=
  ⟨fun lower _ hfair => compileOwned_ownedOnce lower hfair, fun _ hfair => resolveOwned_ownedOnce hfair⟩

end

/-! ### Two executors, the second of them nil -/

section

attribute [local instance] reference wireFormat keptReader asciiCasing

open PortableBundle JsonSchema

/-- Each call returns a closer of its own; from the second call on there is no executor. -/
def secondNil : OwningRegistry where
  ids := ["local"]
  reply _ n _ := ⟨decide (n = 0), some n, none⟩

theorem secondNil_fair : secondNil.Fair where
  quiet _ _ _ h := by cases h
  distinct m n closer hm hn := by
    obtain ⟨_, _, hm⟩ := hm
    obtain ⟨_, _, hn⟩ := hn
    exact Option.some.inj (hm.trans hn.symm)

def twoVerbs : PortableSpec :=
  { sampleSpec .nilSlice with
    sources := []
    environment := .struct [("facts", .nilMap), ("verbs", .map [("audit", sampleVerb .nilSlice),
      ("ship", sampleVerb .nilSlice)]), ("functions", .nilMap), ("types", .nilMap)]
    executors := .ofEntries [(("audit" : Text), sampleDescriptor), (("ship" : Text), sampleDescriptor)] }

def twoVerbsConfig (bundle : SourceBundle) : OwningBuildConfig where
  bundle := bundle
  compileOptions := ⟨.unspecified, .zero⟩
  resolvers := some secondNil
  functionIDs := .empty
  production := true

theorem closers_owned_once_nil : ∃ bundle, SourceBundle.new twoVerbs = .ok bundle ∧
    OwnedOnce (compileOwned lowerShip (twoVerbsConfig bundle) noAcquisitions) ∧
    (compileOwned lowerShip (twoVerbsConfig bundle) noAcquisitions).2.released = [1, 0] := by
  have hrun : (SourceBundle.new twoVerbs).toOption.any (fun bundle =>
      decide ((compileOwned lowerShip (twoVerbsConfig bundle) noAcquisitions).2.released = [1, 0])) = true := by
    decide +kernel
  obtain ⟨bundle, hbundle, hreleased⟩ := ok_of_any hrun
  refine ⟨bundle, hbundle, closers_owned_once.1 lowerShip (twoVerbsConfig bundle) ?_, of_decide_eq_true hreleased⟩
  rintro registry ⟨⟩
  exact secondNil_fair

end

end Effectus

import Effectus.Outbox.Types
import Mathlib.Data.List.Forall2

/-!
What the outbox is for, one saga at a time. A saga runs its effects in order, each by attempts of a
job; when one is known to have failed, the effects already done are undone, last first, as far as they
can be. Work that may have been committed, but is not known to be, blocks the saga for good.
-/

namespace Effectus.Protocol

/-- Work that is attempted until it settles. -/
structure Job where
  state : DispatchState
  attempt : Nat

/-- One effect of a saga: the job that makes it, and the job that undoes it once there is one. -/
structure Effect where
  name : Text
  reversible : Bool
  forward : Job
  inverse : Option Job

structure Saga where
  state : SagaState
  effects : List Effect

/-- The job may still be attempted. -/
def Job.Waiting (j : Job) : Prop := j.state = .queued ∨ j.state = .retryWait ∨ j.state = .inFlight

/-- A job nobody has attempted. -/
def Job.new : Job := ⟨.queued, 0⟩

/-- The next attempt at a job. -/
def Job.claimed (j : Job) : Job := ⟨.inFlight, j.attempt + 1⟩

def Job.withState (j : Job) (state : DispatchState) : Job := { j with state := state }

namespace Effect

def Done (e : Effect) : Prop := e.forward.state = .succeeded

def Undone (e : Effect) : Prop := ∃ j, e.inverse = some j ∧ j.state = .succeeded

/-- Done and not undone. -/
def Standing (e : Effect) : Prop := e.Done ∧ ¬e.Undone

/-- Standing, and there is a way to undo it. -/
def Owed (e : Effect) : Prop := e.reversible = true ∧ e.Standing

/-- Never attempted, and not going to be if it was canceled. -/
def Untouched (e : Effect) : Prop := e.forward.attempt = 0 ∧ (e.forward.state = .queued ∨ e.forward.state = .canceled)

/-- An inverse that has not succeeded. -/
def Pending (e : Effect) : Prop := ∃ j, e.inverse = some j ∧ j.state ≠ .succeeded

/-- An inverse that may have been committed. -/
def UnknownInverse (e : Effect) : Prop := ∃ j, e.inverse = some j ∧ j.state = .blockedUnknown

/-- Work that may have been committed, either way. -/
def Unknown (e : Effect) : Prop := e.forward.state = .blockedUnknown ∨ e.UnknownInverse

end Effect

/-- A stopped job: what was not attempted is canceled, what may have been committed is blocked. -/
structure Job.Closes (j j' : Job) : Prop where
  attempt : j'.attempt = j.attempt
  queued : j.state = .queued → j'.state = .canceled
  retryWait : j.state = .retryWait → j'.state = .canceled ∨ j'.state = .blockedUnknown
  inFlight : j.state = .inFlight → j'.state = .blockedUnknown
  settled : ¬j.Waiting → j'.state = j.state

/-- Both jobs of an effect are stopped. -/
structure Effect.Closes (e e' : Effect) : Prop where
  name : e'.name = e.name
  reversible : e'.reversible = e.reversible
  forward : e.forward.Closes e'.forward
  inverse : Option.Rel Job.Closes e.inverse e'.inverse

/-- Only the inverse is stopped. -/
structure Effect.ClosesInverse (e e' : Effect) : Prop where
  name : e'.name = e.name
  reversible : e'.reversible = e.reversible
  forward : e'.forward = e.forward
  inverse : Option.Rel Job.Closes e.inverse e'.inverse

/-- Where a saga goes once an effect failed or was undone: to the last effect it owes an inverse, or to
    an end. `lossy` allows an inverse to be missed. -/
inductive Advance (lossy : Prop) (working ended : SagaState) (es : List Effect) : SagaState → List Effect → Prop
  | stuck (owed : ∀ e ∈ es, ¬e.Owed) : Advance lossy working ended es .blockedCompensation es
  | ended (none : ∀ e ∈ es, ¬e.Standing) : Advance lossy working ended es ended es
  | next {pre post : List Effect} {e : Effect} (split : es = pre ++ e :: post) (owed : e.Owed)
      (last : ∀ x ∈ post, ¬x.Owed) (fresh : e.inverse = none) :
      Advance lossy working ended es working (pre ++ { e with inverse := some .new } :: post)
  | missed {e : Effect} (mem : e ∈ es) (owed : e.Owed) (why : lossy) : Advance lossy working ended es working es

/-- Where a saga whose jobs are all stopped ends. Work that may have been committed comes first; a saga that was over
    stays as it was; one that was open has failed if nothing was done, and depends on a repair if something was. -/
inductive Stops (before : SagaState) (es : List Effect) : SagaState → Prop
  | unknown (some : ∃ e ∈ es, e.Unknown) : Stops before es .blockedUnknown
  | kept (known : ∀ e ∈ es, ¬e.Unknown) (closed : before ≠ .running ∧ before ≠ .compensating) : Stops before es before
  | failed (known : ∀ e ∈ es, ¬e.Unknown) (running : before = .running) (none : ∀ e ∈ es, ¬e.Done) :
      Stops before es .failed
  | depends (known : ∀ e ∈ es, ¬e.Unknown)
      (why : before = .compensating ∨ before = .running ∧ ∃ e ∈ es, e.Done) : Stops before es .blockedDependency

/-- One step of a saga. -/
inductive Step (lossy : Prop) (p : Saga) : Saga → Prop
  | enqueue {e : Effect} (running : p.state = .running) (new : e.forward = .new) (none : e.inverse = none) :
      Step lossy p ⟨p.state, p.effects ++ [e]⟩
  | claim {pre post : List Effect} {e : Effect} (split : p.effects = pre ++ e :: post)
      (running : p.state = .running) (before : ∀ x ∈ pre, x.Done) (waiting : e.forward.Waiting) :
      Step lossy p ⟨p.state, pre ++ { e with forward := e.forward.claimed } :: post⟩
  | claimInverse {pre post : List Effect} {e : Effect} {j : Job} (split : p.effects = pre ++ e :: post)
      (compensating : p.state = .compensating) (inverse : e.inverse = some j) (waiting : j.Waiting) :
      Step lossy p ⟨p.state, pre ++ { e with inverse := some j.claimed } :: post⟩
  | settle {pre post : List Effect} {e : Effect} {state : DispatchState} (split : p.effects = pre ++ e :: post)
      (inFlight : e.forward.state = .inFlight) (target : state = .succeeded ∨ state = .retryWait) :
      Step lossy p ⟨p.state, pre ++ { e with forward := e.forward.withState state } :: post⟩
  | retryInverse {pre post : List Effect} {e : Effect} {j : Job} (split : p.effects = pre ++ e :: post)
      (inverse : e.inverse = some j) (inFlight : j.state = .inFlight) :
      Step lossy p ⟨p.state, pre ++ { e with inverse := some (j.withState .retryWait) } :: post⟩
  | block {pre post : List Effect} {e : Effect} {state : DispatchState} {saga : SagaState}
      (split : p.effects = pre ++ e :: post) (inFlight : e.forward.state = .inFlight)
      (target : state = .blockedUnknown ∧ saga = .blockedUnknown ∨ state = .blockedFence ∧ saga = .blockedFence) :
      Step lossy p ⟨saga, pre ++ { e with forward := e.forward.withState state } :: post⟩
  | blockInverse {pre post : List Effect} {e : Effect} {j : Job} {state : DispatchState} {saga : SagaState}
      (split : p.effects = pre ++ e :: post) (inverse : e.inverse = some j) (inFlight : j.state = .inFlight)
      (target : (state = .failedPermanent ∨ state = .blockedUnknown) ∧ saga = .blockedCompensation ∨
        state = .blockedFence ∧ saga = .blockedFence) :
      Step lossy p ⟨saga, pre ++ { e with inverse := some (j.withState state) } :: post⟩
  | fail {pre post es : List Effect} {e : Effect} {saga : SagaState} (split : p.effects = pre ++ e :: post)
      (inFlight : e.forward.state = .inFlight)
      (advance : Advance lossy .compensating .failed
        (pre ++ { e with forward := e.forward.withState .failedPermanent } :: post) saga es) : Step lossy p ⟨saga, es⟩
  | undo {pre post es : List Effect} {e : Effect} {j : Job} {saga : SagaState} (split : p.effects = pre ++ e :: post)
      (inverse : e.inverse = some j) (inFlight : j.state = .inFlight)
      (advance : Advance lossy p.state .compensated
        (pre ++ { e with inverse := some (j.withState .succeeded) } :: post) saga es) : Step lossy p ⟨saga, es⟩
  | complete (running : p.state = .running) (all : ∀ e ∈ p.effects, e.Done) : Step lossy p ⟨.completed, p.effects⟩
  | stop {es : List Effect} {saga : SagaState} (closes : List.Forall₂ Effect.Closes p.effects es)
      (target : Stops p.state es saga) : Step lossy p ⟨saga, es⟩
  | blockCompensation {es : List Effect} {saga : SagaState} (compensating : p.state = .compensating)
      (closes : List.Forall₂ Effect.ClosesInverse p.effects es)
      (target : saga = .blockedUnknown ∧ (∃ e ∈ es, e.UnknownInverse) ∨
        saga = .blockedCompensation ∧ ∀ e ∈ es, ¬e.UnknownInverse) : Step lossy p ⟨saga, es⟩
  | failFast (blocked : p.state = .blockedCompensation)
      (idle : ∀ e ∈ p.effects, e.inverse = none ∧ e.forward.state ≠ .inFlight) : Step lossy p ⟨.failed, p.effects⟩

/-- What may become of a saga that may not exist yet. -/
inductive Next (lossy : Prop) : Option Saga → Option Saga → Prop
  | same (v : Option Saga) : Next lossy v v
  | created : Next lossy none (some ⟨.running, []⟩)
  | step {p q : Saga} (h : Step lossy p q) : Next lossy (some p) (some q)

/-- Something is owed an inverse and no inverse is at work, though the saga goes on compensating or has ended as if
    there were nothing left to undo. -/
def Saga.Strands (p : Saga) : Prop :=
  (p.state = .compensating ∨ p.state = .compensated ∨ p.state = .failed) ∧ (∃ e ∈ p.effects, e.Owed) ∧
    ∀ e ∈ p.effects, ∀ j, e.inverse = some j → ¬j.Waiting

/-- A move loses an inverse if one that was there is gone after it, or if the saga strands. -/
def Loses (p q : Saga) : Prop :=
  (∃ e ∈ p.effects, e.inverse ≠ none ∧ ∀ e' ∈ q.effects, e'.name = e.name → e'.inverse = none) ∨ q.Strands

end Effectus.Protocol

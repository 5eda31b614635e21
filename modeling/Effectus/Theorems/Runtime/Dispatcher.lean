import Effectus.Runtime.Dispatcher
import Effectus.Runtime.Workflow
import Effectus.Theorems.Runtime.World

/-!
What the parts of a dispatch may ask of the world: those that complete it make a few kinds of calls, and the executor is
called in one place.
-/

namespace Effectus

variable [Platform] [FencingProvider]

/-- The calls a dispatch is completed by. -/
def World.Call.isSettling : World.Call → Bool
  | .clock | .completeDispatch _ | .getDispatch _ | .listAttempts _ => true
  | _ => false

/-- The executor comes from outside: it is called directly, or after the saga was looked at. -/
def Dispatcher.External (d : Dispatcher) : Prop :=
  ∀ request, d.invoke request = act (.invoke request) ∨ ∃ g planID, d.invoke request = checkedInvoke g planID request

namespace Dispatcher

/-- All its calls are of this kind. -/
abbrev Settles {α : Type} (p : Act α) : Prop := Prog.Calls (fun c => World.Call.isSettling c = true) p

theorem settles_act {c : World.Call} (h : c.isSettling = true) : Settles (act c) := Prog.calls_perform h

theorem finish_settles (dispatch : Dispatch) (c : Completion) : Settles (finish dispatch c) := by
  refine Prog.Calls.bind (fun r => ?_) (settles_act rfl)
  cases r with
  | error err => trivial
  | ok u =>
    refine Prog.Calls.bind (fun r => ?_) (settles_act rfl)
    cases r <;> trivial

theorem completeUnknown_settles (dispatch : Dispatch) (cause : Err) : Settles (completeUnknown dispatch cause) :=
  ⟨rfl, fun _ => ⟨rfl, fun _ => trivial⟩⟩

theorem completeUnfenced_settles (d : Dispatcher) (dispatch : Dispatch) (err : Err) :
    Settles (d.completeUnfenced dispatch err) :=
  ⟨rfl, fun _ => ⟨rfl, fun _ => trivial⟩⟩

theorem completeExhaustedClaim_settles (d : Dispatcher) (dispatch : Dispatch) :
    Settles (d.completeExhaustedClaim dispatch) := by
  refine Prog.Calls.bind (fun r => ?_) (settles_act rfl)
  cases r with
  | error err => trivial
  | ok attempts => exact Prog.Calls.bind (fun now => finish_settles ..) (settles_act rfl)

theorem completeOutcome_settles (d : Dispatcher) (dispatch : Dispatch) (request : InvocationRequest)
    (outcome : InvocationOutcome) : Settles (d.completeOutcome dispatch request outcome) := by
  unfold completeOutcome
  split
  · exact completeUnknown_settles ..
  · refine Prog.Calls.bind (fun now => ?_) (settles_act rfl)
    dsimp only
    split
    · split
      · exact completeUnknown_settles ..
      · exact finish_settles ..
    · split
      · exact finish_settles ..
      · exact finish_settles ..

/-- All its calls are on the fencing provider. -/
abbrev Fences {α : Type} (p : Act α) : Prop := Prog.Calls (fun c => World.Call.isFencing c = true) p

theorem releaseFences_fences : ∀ leases : List FencingProvider.Lease, Fences (releaseFences leases)
  | [] => trivial
  | lease :: rest => by
    refine Prog.Calls.bind (fun _ => ?_) (releaseFences_fences rest)
    exact ⟨rfl, fun _ => trivial⟩

theorem acquireEach_fences (d : Dispatcher) (holder : Text) : ∀ (requirements : List FencingRequirement)
    (leases : List FencingProvider.Lease), Fences (d.acquireEach holder requirements leases)
  | [], _ => trivial
  | requirement :: rest, leases => by
    refine Prog.Calls.bind (fun r => ?_) (Prog.calls_perform rfl)
    cases r with
    | error err =>
      refine Prog.Calls.bind (fun _ => ?_) (releaseFences_fences leases)
      trivial
    | ok lease => exact acquireEach_fences d holder rest (leases ++ [lease])

theorem acquireFences_fences (d : Dispatcher) (dispatch : Dispatch) : Fences (d.acquireFences dispatch) := by
  unfold acquireFences
  split
  · trivial
  split
  · trivial
  split
  · trivial
  · exact acquireEach_fences ..

end Dispatcher

end Effectus

import Effectus.Lib.Shared
import Effectus.Errors

/-!
The lifetime of generations in an engine. Calls of `Execute` run at once: those of one execution ID pass one after another,
and those that need one generation from the past share one resolution of it. The engine's mutex makes each passage between a
lock and its unlock one step; waiting on a channel, a resolution and a `Close` are steps of their own. `Engine.Close` stops
new calls, waits for the others and closes the active generation.
-/

namespace Effectus.Lifetime

open Shared

/-! ### Entries -/

/-- `executionGate`: whether the permit is taken. -/
structure ExecutionGate where
  permit : Bool

/-- `historicalGeneration`: the generation by its identity, and whether `ready` is closed. -/
structure HistoricalGeneration where
  ready : Bool
  generation : Option Nat
  err : Option Err

/-- A generation as the engine looks at it. -/
structure ResolvedGeneration where
  id : Nat
  isChecked : Bool
  isClosed : Bool
  digest : Text

/-- What stays the same while the engine runs. -/
structure EngineConfig where
  generation : Nat
  digest : Text
  hasResolver : Bool

/-! ### Calls -/

/-- Where a call is that has its permit. -/
inductive Work where
  | loading
  | joining (digest : Text)
  | resolving (digest : Text) (entry : Nat)
  | rejecting (digest : Text) (entry : Nat) (generation : Nat) (err : Err)
  | publishing (digest : Text) (entry : Nat) (generation : Option Nat) (err : Option Err)
  | awaiting (digest : Text) (entry : Nat)
  | holding (digest : Text) (entry : Nat) (generation : Option Nat)
  | dropping (digest : Text) (entry : Nat) (received : Option Nat)
  | closing (generation : Nat)
  | done

inductive Phase where
  | called
  | waiting (gate : Nat)
  | inside (gate : Nat) (work : Work)
  | leaving (gate : Nat)
  | counted
  | returned

/-- A call of `Execute` for one execution ID. -/
structure Call where
  id : Text
  canceled : Bool
  phase : Phase

/-- How far `Engine.Close` has come. -/
inductive Closing where
  | before
  | waiting
  | drained
  | finished
  deriving DecidableEq

/-- The engine with its calls. The generations that the resolver returned and the `Close` calls on generations are recorded
in their order. -/
structure State where
  closed : Bool
  active : Nat
  executions : Table Text ExecutionGate
  historical : Table Text HistoricalGeneration
  calls : List Call
  closing : Closing
  returned : List Nat
  closes : List Nat

def State.start : State := ⟨false, 0, .empty, .empty, [], .before, [], []⟩

/-- What decides a step besides the state: the branch of a `select`, the digest that the record of the execution needs, and
what the resolver returns. -/
structure Input where
  ctxDone : Bool
  needs : Option Text
  reply : Option ResolvedGeneration × Option Err

/-! ### Steps of a call -/

/-- `beginExecution` up to its `select`. -/
def beginExecution (s : State) (id : Text) : Phase × State :=
  if s.closed then (.returned, s)
  else
    let (gate, executions) := s.executions.join id ⟨false⟩
    (.waiting gate, { s with active := s.active + 1, executions := executions })

def takePermit (s : State) (gate : Nat) : Option (Phase × State) :=
  match s.executions.value? gate with
  | some ⟨false⟩ => some (.inside gate .loading, { s with executions := s.executions.put gate ⟨true⟩ })
  | _ => none

/-- `acquireHistorical` up to its first unlock. Who makes the entry resolves the generation. -/
def joinHistorical (s : State) (digest : Text) : Work × State :=
  let leader := (s.historical.current digest).isNone
  let (entry, historical) := s.historical.join digest ⟨false, none, none⟩
  (if leader then .resolving digest entry else .awaiting digest entry, { s with historical := historical })

/-- Whether a generation that was resolved without an error is refused. -/
def isRefused (digest : Text) : Option ResolvedGeneration → Bool
  | none => true
  | some generation => !generation.isChecked || generation.isClosed || decide (generation.digest ≠ digest)

/-- The reply of the resolver, as the leader judges it. What comes with an error is closed before the error is published. -/
def resolve (engine : EngineConfig) (reply : Option ResolvedGeneration × Option Err) (s : State) (digest : Text)
    (entry : Nat) : Work × State :=
  let (generation, err) :=
    if engine.hasResolver then reply else (none, some (.new "no immutable artifact resolver is configured"))
  let err :=
    if err.isNone && isRefused digest generation then
      some (.new "resolved generation does not match the pinned executable artifact")
    else err
  let s := { s with returned := s.returned ++ (generation.map ResolvedGeneration.id).toList }
  match generation, err with
  | some generation, some err =>
    if generation.id ≠ engine.generation then (.rejecting digest entry generation.id err, s)
    else (.publishing digest entry (some generation.id) (some err), s)
  | generation, err => (.publishing digest entry (generation.map ResolvedGeneration.id) err, s)

def closeGeneration (s : State) (generation : Nat) : State := { s with closes := s.closes ++ [generation] }

/-- The `select` of `acquireHistorical`. -/
def awaitHistorical (s : State) (ctxDone canceled : Bool) (digest : Text) (entry : Nat) : Option Work :=
  if ctxDone then if canceled then some (.dropping digest entry none) else none
  else
    match s.historical.value? entry with
    | some ⟨true, generation, none⟩ => some (.holding digest entry generation)
    | some ⟨true, _, some _⟩ => some (.dropping digest entry none)
    | _ => none

/-- `releaseHistorical`. The last to leave closes the generation. -/
def releaseHistorical (engine : EngineConfig) (s : State) (digest : Text) (entry : Nat) : Work × State :=
  let (last, historical) := s.historical.leave digest entry
  let s := { s with historical := historical }
  match (s.historical.value? entry).bind HistoricalGeneration.generation with
  | some generation => (if last ∧ generation ≠ engine.generation then .closing generation else .done, s)
  | none => (.done, s)

/-- `Execute` between getting its permit and giving it back. -/
def advanceWork (engine : EngineConfig) (input : Input) (canceled : Bool) (s : State) : Work → Option (Work × State)
  | .loading =>
    match input.needs with
    | some digest => if digest = engine.digest then some (.done, s) else some (.joining digest, s)
    | none => some (.done, s)
  | .joining digest => some (joinHistorical s digest)
  | .resolving digest entry => some (resolve engine input.reply s digest entry)
  | .rejecting digest entry generation err => some (.publishing digest entry none (some err), closeGeneration s generation)
  | .publishing digest entry generation err =>
    some (.awaiting digest entry, { s with historical := s.historical.put entry ⟨true, generation, err⟩ })
  | .awaiting digest entry => (awaitHistorical s input.ctxDone canceled digest entry).map fun work => (work, s)
  | .holding digest entry generation => some (.dropping digest entry generation, s)
  | .dropping digest entry _ => some (releaseHistorical engine s digest entry)
  | .closing generation => some (.done, closeGeneration s generation)
  | .done => none

/-- The next step of a call. Its deferred functions give back the generation first, then the permit, and count it as done
last. -/
def advance (engine : EngineConfig) (input : Input) (s : State) (call : Call) : Option (Phase × State) :=
  match call.phase with
  | .called => some (beginExecution s call.id)
  | .waiting gate =>
    if input.ctxDone then if call.canceled then some (.leaving gate, s) else none
    else takePermit s gate
  | .inside gate .done => some (.leaving gate, { s with executions := s.executions.put gate ⟨false⟩ })
  | .inside gate work =>
    (advanceWork engine input call.canceled s work).map fun (work, s) => (.inside gate work, s)
  | .leaving gate => some (.counted, { s with executions := (s.executions.leave call.id gate).2 })
  | .counted => some (.returned, { s with active := s.active - 1 })
  | .returned => none

/-! ### Steps of the engine -/

/-- The next step of `Engine.Close`. -/
def advanceClose (engine : EngineConfig) (s : State) : Option State :=
  match s.closing with
  | .before => some { s with closed := true, closing := .waiting }
  | .waiting => if s.active = 0 then some { s with closing := .drained } else none
  | .drained => some { closeGeneration s engine.generation with closing := .finished }
  | .finished => none

inductive Event where
  | call (id : Text)
  | cancel (i : Nat)
  | advance (i : Nat) (input : Input)
  | close

def step (engine : EngineConfig) (s : State) : Event → Option State
  | .call id => some { s with calls := s.calls ++ [⟨id, false, .called⟩] }
  | .cancel i => (s.calls[i]?).map fun call => { s with calls := s.calls.set i { call with canceled := true } }
  | .advance i input => do
    let call ← s.calls[i]?
    let (phase, s) ← Lifetime.advance engine input s call
    return { s with calls := s.calls.set i { call with phase := phase } }
  | .close => advanceClose engine s

/-- The resolver returns a generation that neither it nor the engine had before. -/
def IsFresh (engine : EngineConfig) (s : State) : Event → Prop
  | .advance _ input => ∀ generation ∈ input.reply.1, generation.id ∉ s.returned ∧ generation.id ≠ engine.generation
  | _ => True

/-- The states of the engine in all interleavings. -/
inductive Reachable (engine : EngineConfig) : State → Prop
  | start : Reachable engine .start
  | step {s s' : State} (event : Event) : Reachable engine s → IsFresh engine s event → Lifetime.step engine s event = some s' →
    Reachable engine s'

end Effectus.Lifetime

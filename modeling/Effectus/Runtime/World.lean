import Effectus.Lib.Threads
import Effectus.Ledger.Atomic
import Effectus.Outbox.Reads
import Effectus.Runtime.Arguments
import Effectus.Runtime.Fencing
import Effectus.Runtime.Generation

/-!
The system the engines and dispatchers run in: the outbox, the ledger and the fencing provider, each call of which is one
step, and what comes from outside (the clock, contexts, random tokens, executors and the artifact resolver).
-/

namespace Effectus

/-- `invocation.Request` with its metadata. No arguments are the nil map. -/
structure InvocationRequest where
  requestID : Text
  executionID : Text
  sagaID : Text
  effectID : Text
  attempt : Nat
  direction : Direction
  idempotencyKey : Text
  fencingGrants : List FencingGrant
  deadline : Time
  verb : Text
  arguments : Option FactMap
  argumentHash : Text
  contractHash : Text

structure InvocationOutcome where
  outcomeClass : OutcomeClass
  result : GoValue
  err : Option Err

/-- What one call takes from outside. `fault` is an error the call returns before it does anything: its
context is done, or its database failed. `token` is a new dispatch lease's token, and `random` the bytes for
execution leases. The clock never reads the unset time. -/
structure Ambient [FencingProvider] where
  fault : Option Err
  now : Time
  later : Time
  token : Except Err Text
  random : Nat → Except Err Ledger.Entropy
  fencing : FencingProvider.Input
  outcome : InvocationOutcome
  generation : Except Err Generation
  now_set : now ≠ 0

structure World [FencingProvider] where
  outbox : Store
  ledger : Ledger
  fences : FencingProvider.State

namespace World

variable [FencingProvider]

/-- Empty stores and a provider in some state. -/
def initial (fences : FencingProvider.State) : World := ⟨.empty, .empty, fences⟩

inductive Call where
  | ctxErr
  | clock
  | getSaga (sagaID : Text)
  | getDispatch (dispatchID : Text)
  | listDispatches (sagaID : Text)
  | listAttempts (dispatchID : Text)
  | createSaga (request : CreateSagaRequest)
  | enqueueStep (request : EnqueueStepRequest)
  | replayExistingStep (request : EnqueueStepRequest)
  | claimDispatch (options : ClaimOptions)
  | saveFencingGrants (dispatchID : Text) (attempt : Nat) (leaseToken : Text) (grants : List FencingGrant)
  | completeDispatch (completion : Completion)
  | completeSaga (sagaID : Text)
  | finalizeStoppedExecution (executionID : Text)
  | blockSagaCompensation (sagaID : Text)
  | finalizeFailFastSaga (sagaID : Text)
  | putArtifact (artifact : ExecutionArtifact)
  | getArtifact (digest : Text)
  | admitExecution (admission : DurableAdmission)
  | admitExecutionAtomic (admission : DurableAdmission)
  | getExecutionByAdmission (identity : Text)
  | getExecution (id : Text)
  | setExecutionState (id : Text) (revision : Nat) (state : ExecutionState) (message : Text)
  | leaseExecutions (owner : Text) (limit duration : Int)
  | renewExecutionLease (lease : ExecutionLease) (duration : Int)
  | finishExecutionLease (lease : ExecutionLease) (state : ExecutionState) (message : Text)
  | acquireFence (request : FencingRequest)
  | renewFence (lease : FencingProvider.Lease) (ttl : Int)
  /-- A dispatcher releases under a fresh context, one that has just begun. -/
  | releaseFence (fresh : Bool) (lease : FencingProvider.Lease)
  | invoke (request : InvocationRequest)
  | resolveGeneration (artifact : ExecutionArtifact)

@[reducible] def Call.Reply : Call → Type
  | .ctxErr => Option Err
  | .clock => Time
  | .getSaga _ | .createSaga _ => Except Err SagaInstance
  | .getDispatch _ | .enqueueStep _ | .replayExistingStep _ | .claimDispatch _ => Except Err Dispatch
  | .listDispatches _ => Except Err (List Dispatch)
  | .listAttempts _ => Except Err (List DispatchAttempt)
  | .saveFencingGrants .. | .completeDispatch _ | .completeSaga _ | .finalizeStoppedExecution _
  | .blockSagaCompensation _ | .finalizeFailFastSaga _ | .putArtifact _ | .finishExecutionLease .. => Except Err Unit
  | .getArtifact _ => Except Err ExecutionArtifact
  | .admitExecution _ | .admitExecutionAtomic _ => Except Err (ExecutionRecord × Bool)
  | .getExecutionByAdmission _ | .getExecution _ | .setExecutionState .. => Except Err ExecutionRecord
  | .leaseExecutions .. => Except Err (List ExecutionLease)
  | .renewExecutionLease .. => Except Err ExecutionLease
  | .acquireFence _ => Except Err FencingProvider.Lease
  | .renewFence .. | .releaseFence .. => Except Err Unit
  | .invoke _ => InvocationOutcome
  | .resolveGeneration _ => Except Err Generation

section

variable [Platform]

/-- A change of the outbox alone. -/
def onOutbox {ρ : Type} (w : World) (result : ρ × Store) : Option (ρ × World) :=
  some (result.1, { w with outbox := result.2 })

/-- A change of the ledger alone. -/
def onLedger {ρ : Type} (w : World) (result : ρ × Ledger) : Option (ρ × World) :=
  some (result.1, { w with ledger := result.2 })

/-- A change of the fencing provider alone. -/
def onFences {ρ : Type} (w : World) (result : ρ × FencingProvider.State) : Option (ρ × World) :=
  some (result.1, { w with fences := result.2 })

def step (call : Call) (a : Ambient) (w : World) : Option (call.Reply × World) :=
  match call with
  | .ctxErr => some (a.fault, w)
  | .clock => some (a.now, w)
  | .getSaga sagaID => some (w.outbox.getSaga a.fault sagaID, w)
  | .getDispatch dispatchID => some (w.outbox.getDispatch a.fault dispatchID, w)
  | .listDispatches sagaID => some (w.outbox.listDispatches a.fault sagaID, w)
  | .listAttempts dispatchID => some (w.outbox.listAttempts a.fault dispatchID, w)
  | .createSaga request => w.onOutbox (w.outbox.createSaga a.fault a.now request)
  | .enqueueStep request => w.onOutbox (w.outbox.enqueueStep a.fault a.now request)
  | .replayExistingStep request => some (w.outbox.replayExistingStep a.fault request, w)
  | .claimDispatch options => w.onOutbox (w.outbox.claimDispatch a.fault a.now a.token options)
  | .saveFencingGrants dispatchID attempt leaseToken grants =>
    w.onOutbox (w.outbox.saveFencingGrants a.fault a.now a.later dispatchID attempt leaseToken grants)
  | .completeDispatch completion => w.onOutbox (w.outbox.completeDispatch a.fault a.now a.later completion)
  | .completeSaga sagaID => w.onOutbox (w.outbox.completeSaga a.fault a.now sagaID)
  | .finalizeStoppedExecution executionID =>
    w.onOutbox (w.outbox.finalizeStoppedExecution a.fault a.now executionID)
  | .blockSagaCompensation sagaID => w.onOutbox (w.outbox.blockSagaCompensation a.fault a.now sagaID)
  | .finalizeFailFastSaga sagaID => w.onOutbox (w.outbox.finalizeFailFastSaga a.fault a.now sagaID)
  | .putArtifact artifact => w.onLedger (w.ledger.putArtifact a.fault artifact)
  | .getArtifact digest => some (w.ledger.getArtifact a.fault digest, w)
  | .admitExecution admission => w.onLedger (w.ledger.admitExecution a.fault a.now admission)
  | .admitExecutionAtomic admission =>
    match w.ledger.admitExecutionAtomic w.outbox a.fault a.now admission with
    | (reply, outbox, ledger) => some (reply, { w with outbox := outbox, ledger := ledger })
  | .getExecutionByAdmission identity => some (w.ledger.getExecutionByAdmission a.fault identity, w)
  | .getExecution id => some (w.ledger.getExecution a.fault id, w)
  | .setExecutionState id revision state message =>
    w.onLedger (w.ledger.setExecutionState a.fault a.now id revision state message)
  | .leaseExecutions owner limit duration =>
    w.onLedger (w.ledger.leaseExecutions a.fault a.now a.random owner limit duration)
  | .renewExecutionLease lease duration => w.onLedger (w.ledger.renewExecutionLease a.fault a.now lease duration)
  | .finishExecutionLease lease state message =>
    w.onLedger (w.ledger.finishExecutionLease a.fault a.now a.later lease state message)
  | .acquireFence request => w.onFences (FencingProvider.acquire w.fences a.fault a.now a.fencing request)
  | .renewFence lease ttl => w.onFences (FencingProvider.renew w.fences a.fault a.now a.later a.fencing lease ttl)
  | .releaseFence fresh lease =>
    w.onFences (FencingProvider.release w.fences (if fresh then none else a.fault) a.fencing lease)
  | .invoke _ => some (a.outcome, w)
  | .resolveGeneration _ =>
    match a.fault with
    | some err => some (.error err, w)
    | none => some (a.generation, w)

end

end World

section

variable [Platform] [FencingProvider]

@[reducible] def world : System where
  Call := World.Call
  Reply := World.Call.Reply
  Ambient := Ambient
  State := World
  step := World.step

/-- A program of the runtime. -/
abbrev Act := Prog world

/-- A program that may fail. -/
abbrev Try := ExceptT Err (Prog world)

/-- One call. -/
def act (call : World.Call) : Act call.Reply := Prog.perform (S := world) call

/-- One call that may fail, with its error. -/
def Try.of {α : Type} (program : Act (Except Err α)) : Try α := ExceptT.mk program

/-- The outcome of a program that may fail. -/
def Try.result {α : Type} (program : Try α) : Act (Except Err α) := program.run

/-- A program whose outcome is looked at, whether it failed or not. -/
def Try.attempt {α : Type} (program : Act (Except Err α)) : Try (Except Err α) := ExceptT.lift program

/-- Fail if the context is done. -/
def Try.checkContext : Try Unit :=
  Try.of do
    match ← act .ctxErr with
    | some err => return .error err
    | none => return .ok ()

end

end Effectus

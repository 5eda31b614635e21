import Effectus.Errors
import Effectus.Outbox.Types

/-!
Fencing providers. A provider leases a resource of an authority to one holder at a time and numbers its leases; the
provider in memory keeps the last number and the current lease of each resource under one lock.
-/

namespace Effectus

structure FencingRequest where
  authority : Text
  resource : Text
  holder : Text
  ttl : Int

inductive FencingGuarantee where
  | localAdvisory
  | durableMonotonic
  deriving DecidableEq

/-- `fencing.Provider` and the leases it returns, with whatever state they keep. `Input` is what an implementation takes
from outside besides its context and the clock. -/
class FencingProvider where
  State : Type
  Lease : Type
  Input : Type
  guarantee : FencingGuarantee
  grant : Lease → FencingGrant
  acquire : State → Option Err → Time → Input → FencingRequest → Except Err Lease × State
  renew : State → Option Err → Time → Time → Input → Lease → Int → Except Err Unit × State
  release : State → Option Err → Input → Lease → Except Err Unit × State

namespace Fencing

structure LeaseState where
  holder : Text
  token : Nat
  expiresAt : Time

/-- `InMemoryProvider`: two maps under the resource's key. -/
structure Memory where
  /-- A `uint64` per resource, counted on here where the source's would wrap after 2^64 leases. -/
  counters : Text → Nat
  leases : Text → Option LeaseState

/-- `memoryLease`. -/
structure Lease where
  authority : Text
  resource : Text
  holder : Text
  token : Nat
  deriving DecidableEq

def resourceKey (authority resource : Text) : Text := authority ++ 0 :: resource

def Lease.grant (lease : Lease) : FencingGrant := ⟨lease.authority, lease.resource, lease.token⟩

def Lease.key (lease : Lease) : Text := resourceKey lease.authority lease.resource

def validateRequest (request : FencingRequest) : Except Err Unit :=
  if request.authority = [] ∨ request.resource = [] ∨ request.holder = [] then
    .error (.new "fencing authority, resource, and holder are required")
  else if request.ttl ≤ 0 then .error (.new "fencing lease TTL must be positive")
  else .ok ()

namespace Memory

/-- `NewInMemoryProvider`. -/
def empty : Memory := ⟨fun _ => 0, fun _ => none⟩

/-- The resource under this key is leased at `now`. -/
def isLeased (p : Memory) (key : Text) (now : Time) : Bool :=
  (p.leases key).any fun current => decide (now < current.expiresAt)

/-- The provider with the next lease of a resource. -/
def leaseTo (p : Memory) (key : Text) (holder : Text) (expiresAt : Time) : Memory where
  counters := Function.update p.counters key (p.counters key + 1)
  leases := Function.update p.leases key (some ⟨holder, p.counters key + 1, expiresAt⟩)

def acquire (p : Memory) (ctx : Option Err) (now : Time) (request : FencingRequest) : Except Err Lease × Memory :=
  match ctx, validateRequest request with
  | some err, _ => (.error err, p)
  | none, .error err => (.error err, p)
  | none, .ok () =>
    let key := resourceKey request.authority request.resource
    if p.isLeased key now then
      (.error (.wrap .leaseHeld (request.authority ++ ("/" : Text) ++ request.resource)), p)
    else
      (.ok ⟨request.authority, request.resource, request.holder, p.counters key + 1⟩,
        p.leaseTo key request.holder (now + request.ttl))

/-- The current lease of the resource is this one. -/
def isCurrent (p : Memory) (lease : Lease) : Bool :=
  (p.leases lease.key).any fun current => decide (current.holder = lease.holder ∧ current.token = lease.token)

/-- `Renew`; the clock is read for the lease and again for its new end. -/
def renew (p : Memory) (ctx : Option Err) (checkedAt renewedAt : Time) (lease : Lease) (ttl : Int) :
    Except Err Unit × Memory :=
  match ctx, p.leases lease.key with
  | some err, _ => (.error err, p)
  | none, current =>
    if ttl ≤ 0 then (.error (.new "fencing lease TTL must be positive"), p)
    else
      match current with
      | none => (.error (.of .staleGrant), p)
      | some current =>
        if current.holder ≠ lease.holder ∨ current.token ≠ lease.token ∨ current.expiresAt ≤ checkedAt then
          (.error (.of .staleGrant), p)
        else
          (.ok (), { p with
            leases := Function.update p.leases lease.key (some { current with expiresAt := renewedAt + ttl }) })

def release (p : Memory) (ctx : Option Err) (lease : Lease) : Except Err Unit × Memory :=
  match ctx, p.leases lease.key with
  | some err, _ => (.error err, p)
  | none, none => (.ok (), p)
  | none, some current =>
    if current.holder ≠ lease.holder ∨ current.token ≠ lease.token then (.error (.of .staleGrant), p)
    else (.ok (), { p with leases := Function.update p.leases lease.key none })

end Memory

end Fencing

/-- The provider in memory. -/
@[reducible] def memoryFencing : FencingProvider where
  State := Fencing.Memory
  Lease := Fencing.Lease
  Input := Unit
  guarantee := .localAdvisory
  grant := Fencing.Lease.grant
  acquire p ctx now _ request := p.acquire ctx now request
  renew p ctx checkedAt renewedAt _ lease ttl := p.renew ctx checkedAt renewedAt lease ttl
  release p ctx _ lease := p.release ctx lease

end Effectus

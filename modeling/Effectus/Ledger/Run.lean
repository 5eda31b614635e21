import Effectus.Ledger.Memory

/-!
Runs of the ledger. A call carries its arguments and what it takes from outside: whether its context is
done, what the clock reads and the bytes the random source returns.
-/

namespace Effectus

/-- One call that may change the ledger. -/
inductive LedgerOp where
  | putArtifact (ctx : Option Err) (artifact : ExecutionArtifact)
  | admitExecution (ctx : Option Err) (now : Time) (admission : DurableAdmission)
  | setExecutionState (ctx : Option Err) (now : Time) (id : Text) (revision : Nat) (state : ExecutionState)
      (message : Text)
  | leaseExecutions (ctx : Option Err) (now : Time) (random : Nat → Except Err Ledger.Entropy) (owner : Text)
      (limit duration : Int)
  | renewExecutionLease (ctx : Option Err) (now : Time) (lease : ExecutionLease) (duration : Int)
  | finishExecutionLease (ctx : Option Err) (checkedAt updatedAt : Time) (lease : ExecutionLease)
      (state : ExecutionState) (message : Text)

namespace Ledger

/-- The error of a result, if any. -/
def err? {α : Type} : Except Err α → Option Err
  | .error err => some err
  | .ok _ => none

section

variable [Platform]

/-- The error a call returns, if any, and the ledger it leaves. -/
def apply (l : Ledger) : LedgerOp → Option Err × Ledger
  | .putArtifact ctx artifact => (l.putArtifact ctx artifact).map err? id
  | .admitExecution ctx now admission => (l.admitExecution ctx now admission).map err? id
  | .setExecutionState ctx now execution revision state message =>
    (l.setExecutionState ctx now execution revision state message).map err? id
  | .leaseExecutions ctx now random owner limit duration =>
    (l.leaseExecutions ctx now random owner limit duration).map err? id
  | .renewExecutionLease ctx now lease duration => (l.renewExecutionLease ctx now lease duration).map err? id
  | .finishExecutionLease ctx checkedAt updatedAt lease state message =>
    (l.finishExecutionLease ctx checkedAt updatedAt lease state message).map err? id

def after (l : Ledger) (op : LedgerOp) : Ledger := (l.apply op).2

/-- The error a call returns, if any. -/
def failure? (l : Ledger) (op : LedgerOp) : Option Err := (l.apply op).1

/-- The ledger a list of calls leaves. -/
def run (l : Ledger) (ops : List LedgerOp) : Ledger := ops.foldl after l

@[simp] theorem run_append (l : Ledger) (ops more : List LedgerOp) : l.run (ops ++ more) = (l.run ops).run more :=
  List.foldl_append ..

end

end Ledger

end Effectus

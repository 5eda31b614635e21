import Effectus.Lib.Alone
import Effectus.Postgres.Admission
import Effectus.Runtime.Engine

/-!
The calls an admission makes, served by the stores in memory or by PostgreSQL, while nothing else runs.
-/

namespace Effectus

open Postgres

section

variable [Platform] [FencingProvider] [ColumnTypes]

/-- The ledger and the outbox in memory. -/
def inMemory (a : Ambient) : Prog.Server world World := fun call w => World.step call a w

/-- The ledger in PostgreSQL; `now` is what each try of an admission reads. -/
def inPostgres (a : Ambient) (now : Nat → Timestamp) : (call : World.Call) → Database → Option (call.Reply × Database)
  | .ctxErr, db => some (a.fault, db)
  | .getExecutionByAdmission identity, db => some (db.getExecutionByAdmission a.fault identity, db)
  | .getExecution id, db => some (db.getExecution a.fault id, db)
  | .putArtifact artifact, db => some (db.putArtifact a.fault (timestamptz a.now) artifact)
  | .getArtifact digest, db => some (db.getArtifact a.fault digest, db)
  | .admitExecution admission, db => some (db.admitExecutionAtomic a.fault now admission)
  | .admitExecutionAtomic admission, db => some (db.admitExecutionAtomic a.fault now admission)
  | .resolveGeneration _, db =>
    match a.fault with
    | some err => some (.error err, db)
    | none => some (a.generation, db)
  | _, _ => none

/-- A context that is live, and no store. -/
def live : (call : World.Call) → Unit → Option (call.Reply × Unit)
  | .ctxErr, _ => some (none, ())
  | _, _ => none

/-- The engine makes `durable` of the request `input`. -/
def Engine.Builds (e : Engine) (input : Admission) (durable : DurableAdmission) : Prop :=
  ∃ admission facts, prepareAdmission input = .ok admission ∧
    Prog.eval (S := world) live (e.prepareDurable admission).result () = some (.ok (durable, facts), ())

end

end Effectus

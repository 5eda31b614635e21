import Effectus.Postgres.Schema

/-!
Transactions. A statement stands if the columns take its parameters and the tables it leaves keep the declared
constraints, and fails with the SQL state of the first that does not; a transaction that fails leaves the tables as they
were.
-/

namespace Effectus.Postgres

inductive SqlState where
  | checkViolation
  | uniqueViolation
  | foreignKeyViolation
  /-- A parameter its column does not take; the code is one of class 22. -/
  | dataException (code : Text)
  deriving DecidableEq

/-- What a transaction can fail with: the database's error, a query for one row that found none, or an
error of the code. -/
inductive Failure where
  | sql (state : SqlState)
  | noRows
  | err (err : Err)
  deriving DecidableEq

/-- The columns of the server: the `text` parameters they take, and what a document cast to `jsonb` is read back as. What
they refuse is refused with a code of class 22. -/
class ColumnTypes where
  text : Text → Except Text Unit
  jsonb : Text → Except Text Text

abbrev Tx := StateT Database (Except Failure)

namespace Tx

variable {α : Type}

def fail (failure : Failure) : Tx α := throw failure

/-- An insertion or an update. -/
def exec (statement : Database → Database) : Tx Unit := fun db =>
  let after := statement db
  if ¬after.Checks then .error (.sql .checkViolation)
  else if ¬after.Uniques then .error (.sql .uniqueViolation)
  else if ¬after.ForeignKeys then .error (.sql .foreignKeyViolation)
  else .ok ((), after)

/-- A deletion, which can only break references. -/
def execDelete (statement : Database → Database) : Tx Unit := fun db =>
  if (statement db).ForeignKeys then .ok ((), statement db) else .error (.sql .foreignKeyViolation)

/-- A query for one row. -/
def row (found : Option α) : Tx α :=
  match found with
  | some r => pure r
  | none => fail .noRows

/-- A parameter, or the failure of the statement it is for. -/
def column (result : Except Text α) : Tx α :=
  match result with
  | .ok a => pure a
  | .error code => fail (.sql (.dataException code))

/-- The `text` parameters of a statement. -/
def texts [ColumnTypes] : List Text → Tx Unit
  | [] => pure ()
  | t :: rest => do
    column (ColumnTypes.text t)
    texts rest

/-- A parameter that is cast to `jsonb`. -/
def jsonb [ColumnTypes] (document : Text) : Tx Text := column (ColumnTypes.jsonb document)

/-- What the code checks between statements. -/
def lift (result : Except Err α) : Tx α :=
  match result with
  | .ok a => pure a
  | .error err => fail (.err err)

/-- Commit, or roll back. -/
def commit (tx : Tx α) (db : Database) : Except Failure α × Database :=
  match tx db with
  | .ok (a, after) => (.ok a, after)
  | .error failure => (.error failure, db)

end Tx

end Effectus.Postgres

import CourseDb.Parser.Parser
import CourseDb.Server.QueryResult

/-! # The query processor

A text is parsed and carried out in the current database of a session. `USE`
changes the current database and nothing else; it does not ask whether the
database exists.
-/

namespace CourseDb

/-- What carries out the other statements, on states `δ`. -/
structure StatementRunner (δ : Type) where
  mktime : Parser.Mktime
  run : (currentDb : ByteString) → SqlStatement → δ → QueryResult × δ

namespace QueryProcessor

variable {δ : Type} {sql : ByteString} {stmt : SqlStatement}

def errorResult (message : ByteString) : QueryResult := { ok := false, error := message }

/-- `what()` of the exception. -/
def what : ParseFailure → ByteString
  | .parseError message => ascii message
  | .outOfBounds | .outOfFuel => []

/-- The result, the current database afterwards and the state afterwards. -/
def execute (runner : StatementRunner δ) (sql currentDb : ByteString) (d : δ) :
    QueryResult × ByteString × δ :=
  match Parser.parse runner.mktime sql with
  | .error failure => (errorResult (ascii "[parse] " ++ what failure), currentDb, d)
  | .ok (.useDatabase name) => ({}, name, d)
  | .ok stmt => ((runner.run currentDb stmt d).1, currentDb, (runner.run currentDb stmt d).2)

/-- Every statement but `USE` is left to the runner. -/
theorem execute_of_ne_useDatabase (runner : StatementRunner δ)
    (h : Parser.parse runner.mktime sql = .ok stmt) (hne : ∀ name, stmt ≠ .useDatabase name)
    (currentDb : ByteString) (d : δ) : execute runner sql currentDb d =
      ((runner.run currentDb stmt d).1, currentDb, (runner.run currentDb stmt d).2) := by
  rw [execute, h]
  cases stmt with
  | useDatabase name => exact absurd rfl (hne name)
  | _ => rfl

def databaseAfter (currentDb : ByteString) : SqlStatement → ByteString
  | .useDatabase name => name
  | _ => currentDb

theorem execute_currentDb (runner : StatementRunner δ)
    (h : Parser.parse runner.mktime sql = .ok stmt) (currentDb : ByteString) (d : δ) :
    (execute runner sql currentDb d).2.1 = databaseAfter currentDb stmt := by
  rw [execute, h]
  cases stmt <;> rfl

end QueryProcessor

end CourseDb

import CourseDb.Planner.Planner
import CourseDb.Server.QueryProcessor
import CourseDb.Versioning.Revert

/-! # The executors

A plan is carried out on the engine. A condition is evaluated on one tuple:
values of different types are not compared, and a comparison with NULL is false.
INSERT, UPDATE and DELETE go through their rows one by one and stop at the first
row that fails; the rows before it stay as they have become.
-/

namespace CourseDb

/-- `std::regex_match` of a text and a pattern; there is no answer where the
pattern is not a regular expression. -/
abbrev RegexMatch := (text pattern : ByteString) → Option Bool

namespace ExpressionEvaluator

def executionError {α : Type} (message : String) : Except Status α :=
  .error ⟨.kExecutionError, message⟩

def compareValues (op : BinaryOp) (left right : Value) : Bool :=
  match op with
  | .kEq => left = right
  | .kNe => left ≠ right
  | .kLt => left.less right
  | .kGt => right.less left
  | .kLe => left.less right || left = right
  | .kGe => !left.less right

def compare (left right : Value) (op : BinaryOp) : Except Status Value :=
  if left.isNull || right.isNull then
    .ok (.bool false)
  else if left.type ≠ right.type then
    executionError "cannot compare values of different types"
  else
    .ok (.bool (compareValues op left right))

def truthy (value : Value) : Bool := value = .bool true

def evaluateBetween (value low high : Value) : Except Status Value :=
  if value.isNull || low.isNull || high.isNull then
    .ok (.bool false)
  else if value.type ≠ low.type ∨ value.type ≠ high.type then
    executionError "BETWEEN operands have different types"
  else
    .ok (.bool (!value.less low && value.less high))

def evaluateLike (regexMatch : RegexMatch) (value pattern : Value) : Except Status Value :=
  if value.isNull || pattern.isNull then
    .ok (.bool false)
  else
    match value, pattern with
    | .string text, .string regex =>
      match regexMatch text regex with
      | none => executionError "invalid LIKE regex"
      | some matched => .ok (.bool matched)
    | _, _ => executionError "LIKE expects string operands"

/-- The right side of AND and OR is evaluated only if the left side does not decide. -/
def evaluate (regexMatch : RegexMatch) (schema : TableSchema) (tuple : Tuple) :
    Expr → Except Status Value
  | .columnRef columnName =>
    match (schema.findColumn columnName).bind (tuple[·]?) with
    | none => executionError ("column '" ++ quoted columnName ++ "' is not available")
    | some value => .ok value
  | .literal value => .ok value
  | .binary op left right => do
    let l ← evaluate regexMatch schema tuple left
    let r ← evaluate regexMatch schema tuple right
    compare l r op
  | .logical .kAnd left right => do
    let l ← evaluate regexMatch schema tuple left
    if !truthy l then
      return .bool false
    else
      let r ← evaluate regexMatch schema tuple right
      return .bool (truthy r)
  | .logical .kOr left right => do
    let l ← evaluate regexMatch schema tuple left
    if truthy l then
      return .bool true
    else
      let r ← evaluate regexMatch schema tuple right
      return .bool (truthy r)
  | .between value low high => do
    let v ← evaluate regexMatch schema tuple value
    let l ← evaluate regexMatch schema tuple low
    let h ← evaluate regexMatch schema tuple high
    evaluateBetween v l h
  | .like value pattern => do
    let v ← evaluate regexMatch schema tuple value
    let p ← evaluate regexMatch schema tuple pattern
    evaluateLike regexMatch v p

/-- `Matches` of the executors; every row satisfies a missing condition. -/
def satisfies (regexMatch : RegexMatch) (schema : TableSchema) (tuple : Tuple) :
    Option Expr → Except Status Bool
  | none => .ok true
  | some condition => (evaluate regexMatch schema tuple condition).map truthy

end ExpressionEvaluator

open StorageNodeEngine (getTableDescriptor scanTable)

/-- How a plan can fail: with a status, or by an access past the end of a tuple,
of which the source makes some without a check. -/
inductive ExecError where
  | status (s : Status)
  | outOfBounds
deriving DecidableEq

namespace Executor

variable {α : Type}

abbrev Action (α : Type) := Fallible ExecError StorageNodeEngine α

def onEngine (x : StorageNodeEngine.Action α) : Action α := fun e =>
  ((x e).1.mapError .status, (x e).2)

/-- A result that does not touch the engine. -/
def checked (r : Except Status α) : Action α := Fallible.ofExcept (r.mapError .status)

variable (regexMatch : RegexMatch)

def matchesRow (schema : TableSchema) (predicate : Option Expr) (row : Row) : Except Status Bool :=
  if row.deleted then .ok false
  else ExpressionEvaluator.satisfies regexMatch schema row.tuple predicate

def assignColumns (schema : TableSchema) (seen : List ByteString) :
    List (ByteString × Value) → Tuple → Except Status Tuple
  | [], out => .ok out
  | (name, value) :: rest, out =>
    if name ∈ seen then
      .error ⟨.kExecutionError, "duplicate INSERT column '" ++ quoted name ++ "'"⟩
    else
      match schema.findColumn name with
      | none => .error ⟨.kExecutionError, "unknown INSERT column '" ++ quoted name ++ "'"⟩
      | some column => assignColumns schema (name :: seen) rest (out.set column value)

def cannotBeNull (column : ColumnSchema) : Status :=
  ⟨.kConstraintViolation, "column '" ++ quoted column.name ++ "' cannot be NULL"⟩

/-- NULL values are replaced by the defaults of their columns. -/
def fillDefaults : TableSchema → Tuple → Except Status Tuple
  | column :: columns, value :: values =>
    let value := if value.isNull then column.defaultValue.getD value else value
    if value.isNull && (column.notNull || column.indexed) then
      .error (cannotBeNull column)
    else do
      let rest ← fillDefaults columns values
      return value :: rest
  | _, _ => .ok []

def buildTuple (schema : TableSchema) (columns : List ByteString) (values : List Value) :
    Except Status Tuple := do
  if columns.length ≠ values.length then
    .error ⟨.kExecutionError, "INSERT values count does not match columns count"⟩
  else
    let assigned ←
      assignColumns schema [] (columns.zip values) (List.replicate schema.length .null)
    fillDefaults schema assigned

/-- The loop over the rows to insert; returns their number. -/
def insertRows (table : TableDescriptor) (dbName tableName : ByteString)
    (columns : List ByteString) : List (List Value) → Action ℕ
  | [] => return 0
  | values :: rows => do
    let tuple ← checked (buildTuple table.schema columns values)
    let _ ← onEngine (StorageNodeEngine.insert dbName tableName tuple)
    let count ← insertRows table dbName tableName columns rows
    return count + 1

def executeInsert (dbName tableName : ByteString) (columns : List ByteString)
    (rows : List (List Value)) : Action QueryResult := do
  let table ← onEngine (getTableDescriptor dbName tableName)
  let affectedRows ← insertRows table dbName tableName columns rows
  return { affectedRows }

/-- The tuple with the assignments of an UPDATE made one after the other. -/
def assign (schema : TableSchema) : List (ByteString × Value) → Tuple → Except ExecError Tuple
  | [], tuple => .ok tuple
  | (name, value) :: rest, tuple =>
    match schema.findColumn name, schema.findColumnSchema name with
    | some index, some column =>
      if value.isNull && (column.notNull || column.indexed) then
        .error (.status (cannotBeNull column))
      else if index < tuple.length then
        assign schema rest (tuple.set index value)
      else
        .error .outOfBounds
    | _, _ => .error (.status ⟨.kExecutionError, "unknown UPDATE column '" ++ quoted name ++ "'"⟩)

/-- The loop of an UPDATE or a DELETE over the scanned rows; returns the number of matches. -/
def eachMatch (schema : TableSchema) (predicate : Option Expr) (act : Row → Action Unit) :
    List Row → Action ℕ
  | [] => return 0
  | row :: rows => do
    let matched ← checked (matchesRow regexMatch schema predicate row)
    if matched then
      act row
      let count ← eachMatch schema predicate act rows
      return count + 1
    else
      eachMatch schema predicate act rows

def updateRows (table : TableDescriptor) (dbName tableName : ByteString)
    (assignments : List (ByteString × Value)) (predicate : Option Expr) : List Row → Action ℕ :=
  eachMatch regexMatch table.schema predicate fun row => do
    let updated ← Fallible.ofExcept (assign table.schema assignments row.tuple)
    onEngine (StorageNodeEngine.update dbName tableName row.rid updated)

def executeUpdate (dbName tableName : ByteString) (assignments : List (ByteString × Value))
    (predicate : Option Expr) : Action QueryResult := do
  let table ← onEngine (getTableDescriptor dbName tableName)
  let rows ← onEngine (scanTable dbName tableName)
  let affectedRows ← updateRows regexMatch table dbName tableName assignments predicate rows
  return { affectedRows }

def deleteRows (table : TableDescriptor) (dbName tableName : ByteString)
    (predicate : Option Expr) : List Row → Action ℕ :=
  eachMatch regexMatch table.schema predicate fun row =>
    onEngine (StorageNodeEngine.delete dbName tableName row.rid)

def executeDelete (dbName tableName : ByteString) (predicate : Option Expr) :
    Action QueryResult := do
  let table ← onEngine (getTableDescriptor dbName tableName)
  let rows ← onEngine (scanTable dbName tableName)
  let affectedRows ← deleteRows regexMatch table dbName tableName predicate rows
  return { affectedRows }

def fillColumns (schema : TableSchema) (selectAll : Bool) (columns : List SelectItem) :
    List ByteString :=
  if selectAll then
    schema.map ColumnSchema.name
  else
    columns.map fun item => if item.aliasName.isEmpty then item.column else item.aliasName

def projectItems (schema : TableSchema) (tuple : Tuple) :
    List SelectItem → Except ExecError Tuple
  | [] => .ok []
  | item :: items =>
    match (schema.findColumn item.column).bind (tuple[·]?) with
    | none => .error .outOfBounds
    | some value => do
      let rest ← projectItems schema tuple items
      return value :: rest

def projectRow (schema : TableSchema) (tuple : Tuple) (selectAll : Bool)
    (columns : List SelectItem) : Except ExecError Tuple :=
  if selectAll then .ok tuple else projectItems schema tuple columns

/-- The loop over the scanned rows. -/
def selectRows (schema : TableSchema) (selectAll : Bool) (columns : List SelectItem)
    (predicate : Option Expr) : List Row → Except ExecError (List Tuple)
  | [] => .ok []
  | row :: rows => do
    let matched ← (matchesRow regexMatch schema predicate row).mapError .status
    if matched then
      let projected ← projectRow schema row.tuple selectAll columns
      let rest ← selectRows schema selectAll columns predicate rows
      return projected :: rest
    else
      selectRows schema selectAll columns predicate rows

def selected (schema : TableSchema) (selectAll : Bool) (columns : List SelectItem)
    (rows : List Tuple) : QueryResult :=
  { columns := fillColumns schema selectAll columns, rows, affectedRows := rows.length }

def executeSeqScan (dbName tableName : ByteString) (selectAll : Bool) (columns : List SelectItem)
    (predicate : Option Expr) : Action QueryResult := do
  let table ← onEngine (getTableDescriptor dbName tableName)
  let rows ← onEngine (scanTable dbName tableName)
  let tuples ← Fallible.ofExcept
    (selectRows regexMatch table.schema selectAll columns predicate rows)
  return selected table.schema selectAll columns tuples

/-- The key of the first comparison of a column with a literal. -/
def extractEqualityKey : Expr → Option Value
  | .logical .kAnd left right => (extractEqualityKey left).or (extractEqualityKey right)
  | .binary .kEq (.columnRef _) (.literal key) => some key
  | .binary .kEq (.literal key) (.columnRef _) => some key
  | _ => none

def executeIndexScan (dbName tableName indexName : ByteString) (selectAll : Bool)
    (columns : List SelectItem) (predicate : Option Expr) : Action QueryResult := do
  let table ← onEngine (getTableDescriptor dbName tableName)
  match predicate.bind extractEqualityKey with
  | none =>
    Fallible.fail (.status
      ⟨.kExecutionError, "IndexScan requires equality predicate with literal key"⟩)
  | some key =>
    match ← onEngine (IndexManager.find indexName key) with
    | none => return selected table.schema selectAll columns []
    | some rid =>
      let rows ← onEngine (scanTable dbName tableName)
      let tuples ← Fallible.ofExcept
        (selectRows regexMatch table.schema selectAll columns predicate
          (rows.filter fun row => row.rid = rid))
      return selected table.schema selectAll columns tuples

/-- A call of the engine without rows in its result. -/
def command (x : StorageNodeEngine.Action Unit) : Action QueryResult := do
  onEngine x
  return {}

/-- `USE` is carried out by the query processor itself. -/
def executePlan : PhysicalPlan → Action QueryResult
  | .createDatabase dbName => command (StorageNodeEngine.createDatabase dbName)
  | .dropDatabase dbName => command (StorageNodeEngine.dropDatabase dbName)
  | .useDatabase _ => return {}
  | .createTable descriptor => command (StorageNodeEngine.createTable descriptor)
  | .dropTable dbName tableName => command (StorageNodeEngine.dropTable dbName tableName)
  | .insert dbName tableName columns rows => executeInsert dbName tableName columns rows
  | .seqScan dbName tableName selectAll columns predicate =>
    executeSeqScan regexMatch dbName tableName selectAll columns predicate
  | .indexScan dbName tableName indexName selectAll columns predicate =>
    executeIndexScan regexMatch dbName tableName indexName selectAll columns predicate
  | .update dbName tableName assignments predicate =>
    executeUpdate regexMatch dbName tableName assignments predicate
  | .delete dbName tableName predicate => executeDelete regexMatch dbName tableName predicate
  | .revert dbName tableName timestampMs =>
    command (RevertService.revertTableToTimestamp dbName tableName timestampMs)

/-- `FromStatus`. -/
def fromError : ExecError → QueryResult
  | .status s => QueryProcessor.errorResult (ascii s.message)
  | .outOfBounds => QueryProcessor.errorResult []

/-- The result of a plan, with the errors turned into results. -/
def run (currentDb : ByteString) (stmt : SqlStatement) (e : StorageNodeEngine) :
    QueryResult × StorageNodeEngine :=
  match Planner.buildPhysicalPlan e.config.dataDir e.disk currentDb stmt with
  | .error status => (QueryProcessor.errorResult (ascii ("[plan] " ++ status.message)), e)
  | .ok plan =>
    match executePlan regexMatch plan e with
    | (.ok result, e) => (result, e)
    | (.error error, e) => (fromError error, e)

/-- The engine behind the query processor. -/
def runner (mktime : Parser.Mktime) : StatementRunner StorageNodeEngine where
  mktime
  run := run regexMatch

end Executor

end CourseDb

import CourseDb.Catalog.CatalogManager
import CourseDb.Parser.Statement

/-! # Binding and planning

A statement is checked against the catalog and turned into a plan. The logical
plan of the source has the fields of the physical one and is not kept.
-/

namespace CourseDb

inductive PhysicalPlan where
  | createDatabase (databaseName : ByteString)
  | dropDatabase (databaseName : ByteString)
  | useDatabase (databaseName : ByteString)
  | createTable (descriptor : TableDescriptor)
  | dropTable (databaseName tableName : ByteString)
  | insert (databaseName tableName : ByteString) (columns : List ByteString)
      (rows : List (List Value))
  | seqScan (databaseName tableName : ByteString) (selectAll : Bool) (columns : List SelectItem)
      (predicate : Option Expr)
  | indexScan (databaseName tableName indexName : ByteString) (selectAll : Bool)
      (columns : List SelectItem) (predicate : Option Expr)
  | update (databaseName tableName : ByteString) (assignments : List (ByteString × Value))
      (predicate : Option Expr)
  | delete (databaseName tableName : ByteString) (predicate : Option Expr)
  | revert (databaseName tableName : ByteString) (timestampMs : ℤ)
deriving DecidableEq

def resolveDb (currentDb explicitDb : ByteString) : ByteString :=
  if explicitDb.isEmpty then currentDb else explicitDb

namespace Binder

def bindError {α : Type} (message : String) : Except Status α := .error ⟨.kBindError, message⟩

def requireDb (dbName : ByteString) : Except Status Unit :=
  if dbName.isEmpty then bindError "database is not selected" else .ok ()

/-- The type of a BOOL column is not checked here. -/
def checkValueType (column : ColumnSchema) (value : Value) : Except Status Unit :=
  if value.isNull then
    if column.notNull || column.indexed then
      .error ⟨.kConstraintViolation, "column '" ++ quoted column.name ++ "' cannot be NULL"⟩
    else
      .ok ()
  else if column.type = .kInt ∧ value.type ≠ .kInt then
    bindError ("column '" ++ quoted column.name ++ "' expects INT")
  else if column.type = .kString ∧ value.type ≠ .kString then
    bindError ("column '" ++ quoted column.name ++ "' expects STRING")
  else
    .ok ()

def unknownColumn {α : Type} (name : ByteString) : Except Status α :=
  bindError ("unknown column '" ++ quoted name ++ "'")

def checkExprColumns (schema : TableSchema) : Expr → Except Status Unit
  | .columnRef name => if schema.findColumn name = none then unknownColumn name else .ok ()
  | .literal _ => .ok ()
  | .binary _ left right => do
    checkExprColumns schema left
    checkExprColumns schema right
  | .logical _ left right => do
    checkExprColumns schema left
    checkExprColumns schema right
  | .between value low high => do
    checkExprColumns schema value
    checkExprColumns schema low
    checkExprColumns schema high
  | .like value pattern => do
    checkExprColumns schema value
    checkExprColumns schema pattern

def checkCondition (schema : TableSchema) : Option Expr → Except Status Unit
  | none => .ok ()
  | some condition => checkExprColumns schema condition

/-- The columns of CREATE TABLE; `seen` are the names of those before. -/
def checkNewColumns (seen : List ByteString) : List ColumnSchema → Except Status Unit
  | [] => .ok ()
  | column :: columns =>
    if column.name ∈ seen then
      bindError ("duplicate column '" ++ quoted column.name ++ "'")
    else if column.indexed && !column.notNull then
      bindError "INDEXED column must be NOT_NULL"
    else
      checkNewColumns (column.name :: seen) columns

/-- A value under the column it is given for. -/
def checkAssignment (schema : TableSchema) (name : ByteString) (value : Value) :
    Except Status Unit :=
  match schema.findColumnSchema name with
  | none => unknownColumn name
  | some column => checkValueType column value

def checkAssignments (schema : TableSchema) : List (ByteString × Value) → Except Status Unit
  | [] => .ok ()
  | (name, value) :: rest => do
    checkAssignment schema name value
    checkAssignments schema rest

def checkInsertRows (schema : TableSchema) (columns : List ByteString) :
    List (List Value) → Except Status Unit
  | [] => .ok ()
  | row :: rows => do
    if row.length ≠ columns.length then
      bindError "INSERT values count does not match columns count"
    else
      checkAssignments schema (columns.zip row)
      checkInsertRows schema columns rows

def checkRequiredColumns (columns : List ByteString) : List ColumnSchema → Except Status Unit
  | [] => .ok ()
  | column :: schema =>
    if (column.notNull || column.indexed) && column.name ∉ columns then
      .error ⟨.kConstraintViolation, "required column '" ++ quoted column.name ++ "' is missing"⟩
    else
      checkRequiredColumns columns schema

def checkInsert (schema : TableSchema) (columns : List ByteString) (rows : List (List Value)) :
    Except Status Unit := do
  if columns.isEmpty then
    bindError "INSERT column list is empty"
  else
    checkInsertRows schema columns rows
    checkRequiredColumns columns schema

def checkSelectItems (schema : TableSchema) : List SelectItem → Except Status Unit
  | [] => .ok ()
  | item :: items =>
    if schema.findColumn item.column = none then unknownColumn item.column
    else checkSelectItems schema items

variable (rootDir : ByteString) (d : Disk)

def bindTable (currentDb databaseName tableName : ByteString) : Except Status TableDescriptor := do
  requireDb (resolveDb currentDb databaseName)
  CatalogManager.getTable rootDir (resolveDb currentDb databaseName) tableName d

end Binder

namespace Planner

/-- `IsColumnEqLiteral`: the column of a comparison of a column with a literal. -/
def isColumnEqLiteral : Expr → Option ByteString
  | .binary .kEq (.columnRef name) (.literal _) => some name
  | .binary .kEq (.literal _) (.columnRef name) => some name
  | _ => none

def indexNameOf (tableName columnName : ByteString) : ByteString :=
  tableName ++ ascii "_" ++ columnName ++ ascii "_idx"

/-- The index on a column: one of the descriptor, or the one the schema implies. -/
def indexOnColumn (table : TableDescriptor) (columnName : ByteString) : Option ByteString :=
  ((table.indexes.find? fun index => index.columnName = columnName).map IndexDescriptor.name).or
    ((table.schema.find? fun column => column.name = columnName && column.indexed).map
      fun column => indexNameOf table.tableName column.name)

def findIndexedEquality (table : TableDescriptor) : Expr → Option ByteString
  | .logical .kAnd left right =>
    (findIndexedEquality table left).or (findIndexedEquality table right)
  | expr => (isColumnEqLiteral expr).bind (indexOnColumn table)

def makeTableDescriptor (dbName tableName : ByteString) (schema : TableSchema) : TableDescriptor :=
  { databaseName := dbName, tableName, dataFile := [], indexDir := [], schema
    indexes := (schema.filter (·.indexed)).map fun column =>
      { name := indexNameOf tableName column.name, tableName, columnName := column.name,
        filePath := [], unique := true } }

def unsupportedStatement : Status := ⟨.kPlanError, "unsupported statement"⟩

/-- `Binder::Bind` and `BuildPhysicalPlan`. -/
def buildPhysicalPlan (rootDir : ByteString) (d : Disk) (currentDb : ByteString) :
    SqlStatement → Except Status PhysicalPlan
  | .createDatabase dbName => return .createDatabase dbName
  | .dropDatabase dbName => return .dropDatabase dbName
  | .useDatabase dbName => return .useDatabase dbName
  | .createTable databaseName tableName schema => do
    Binder.requireDb (resolveDb currentDb databaseName)
    Binder.checkNewColumns [] schema
    return .createTable (makeTableDescriptor (resolveDb currentDb databaseName) tableName schema)
  | .dropTable databaseName tableName => do
    let _ ← Binder.bindTable rootDir d currentDb databaseName tableName
    return .dropTable (resolveDb currentDb databaseName) tableName
  | .insert databaseName tableName columns rows => do
    let table ← Binder.bindTable rootDir d currentDb databaseName tableName
    Binder.checkInsert table.schema columns rows
    return .insert (resolveDb currentDb databaseName) tableName columns rows
  | .select databaseName tableName selectAll columns condition => do
    let table ← Binder.bindTable rootDir d currentDb databaseName tableName
    if selectAll then pure () else Binder.checkSelectItems table.schema columns
    Binder.checkCondition table.schema condition
    match condition.bind (findIndexedEquality table) with
    | some indexName =>
      return .indexScan (resolveDb currentDb databaseName) tableName indexName selectAll columns
        condition
    | none =>
      return .seqScan (resolveDb currentDb databaseName) tableName selectAll columns condition
  | .update databaseName tableName assignments condition => do
    let table ← Binder.bindTable rootDir d currentDb databaseName tableName
    Binder.checkAssignments table.schema assignments
    Binder.checkCondition table.schema (some condition)
    return .update (resolveDb currentDb databaseName) tableName assignments (some condition)
  | .delete databaseName tableName condition => do
    let table ← Binder.bindTable rootDir d currentDb databaseName tableName
    Binder.checkCondition table.schema (some condition)
    return .delete (resolveDb currentDb databaseName) tableName (some condition)
  | .revert databaseName tableName timestampMs => do
    let _ ← Binder.bindTable rootDir d currentDb databaseName tableName
    return .revert (resolveDb currentDb databaseName) tableName timestampMs
  | _ => .error unsupportedStatement

section Plans

variable {rootDir currentDb db tbl : ByteString} {d : Disk} {plan : PhysicalPlan}
  {condition : Expr}

theorem buildPhysicalPlan_insert {columns : List ByteString} {rows : List (List Value)}
    (h : buildPhysicalPlan rootDir d currentDb (.insert db tbl columns rows) =
      .ok plan) :
    plan = .insert (resolveDb currentDb db) tbl columns rows := by
  obtain ⟨table, -, h⟩ := except_bind_eq_ok.mp h
  obtain ⟨⟨⟩, -, h⟩ := except_bind_eq_ok.mp h
  exact (Except.ok.inj h).symm

theorem buildPhysicalPlan_update {assignments : List (ByteString × Value)}
    (h : buildPhysicalPlan rootDir d currentDb
      (.update db tbl assignments condition) = .ok plan) :
    plan = .update (resolveDb currentDb db) tbl assignments (some condition) := by
  obtain ⟨table, -, h⟩ := except_bind_eq_ok.mp h
  obtain ⟨⟨⟩, -, h⟩ := except_bind_eq_ok.mp h
  obtain ⟨⟨⟩, -, h⟩ := except_bind_eq_ok.mp h
  exact (Except.ok.inj h).symm

theorem buildPhysicalPlan_delete
    (h : buildPhysicalPlan rootDir d currentDb (.delete db tbl condition) =
      .ok plan) : plan = .delete (resolveDb currentDb db) tbl (some condition) := by
  obtain ⟨table, -, h⟩ := except_bind_eq_ok.mp h
  obtain ⟨⟨⟩, -, h⟩ := except_bind_eq_ok.mp h
  exact (Except.ok.inj h).symm

end Plans

end Planner

end CourseDb

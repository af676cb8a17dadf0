import CourseDb.Common.Text

/-! # Schemas and descriptors

What the catalog keeps about a table: its columns, its indexes and the files
they live in.
-/

namespace CourseDb

inductive ColumnType where
  | kInt
  | kString
  | kBool
deriving DecidableEq, Repr

/-- `MapColumnTypeToValueType`. -/
def ColumnType.toValueType : ColumnType → ValueType
  | kInt => .kInt
  | kString => .kString
  | kBool => .kBool

structure ColumnSchema where
  name : ByteString
  type : ColumnType := .kInt
  notNull : Bool := false
  indexed : Bool := false
  defaultValue : Option Value := none
deriving DecidableEq

/-- The columns of a table, in order. -/
abbrev TableSchema := List ColumnSchema

namespace TableSchema

/-- The position of a column; the source returns -1 where there is none. -/
def findColumn (schema : TableSchema) (name : ByteString) : Option ℕ :=
  schema.findIdx? fun column => column.name = name

def findColumnSchema (schema : TableSchema) (name : ByteString) : Option ColumnSchema :=
  schema.find? fun column => column.name = name

theorem findColumn_lt {schema : TableSchema} {name : ByteString} {i : ℕ}
    (h : schema.findColumn name = some i) : i < schema.length := by
  obtain ⟨hlt, -⟩ := List.findIdx?_eq_some_iff_getElem.mp h
  exact hlt

/-- The schema found for a name is the one at the position found for it. -/
theorem findColumnSchema_eq (schema : TableSchema) (name : ByteString) :
    schema.findColumnSchema name = (schema.findColumn name).bind (schema[·]?) := by
  induction schema with
  | nil => rfl
  | cons column schema ih =>
    by_cases h : column.name = name
    · simp [findColumnSchema, findColumn, List.findIdx?_cons, h]
    · have hrest : findColumnSchema (column :: schema) name = findColumnSchema schema name := by
        simp [findColumnSchema, h]
      have hnext : findColumn (column :: schema) name = (findColumn schema name).map (· + 1) := by
        simp [findColumn, List.findIdx?_cons, h]
      rw [hrest, hnext, ih]
      cases findColumn schema name <;> simp

end TableSchema

structure IndexDescriptor where
  name : ByteString
  tableName : ByteString
  columnName : ByteString
  filePath : ByteString
  unique : Bool := true
deriving DecidableEq

structure TableDescriptor where
  databaseName : ByteString
  tableName : ByteString
  dataFile : ByteString
  indexDir : ByteString
  schema : TableSchema
  indexes : List IndexDescriptor
deriving DecidableEq

end CourseDb

import CourseDb.Catalog.Schema
import CourseDb.Common.Serialization

/-! # The bytes of a table descriptor

The form in which the catalog stores a descriptor. Lengths and counts are
truncated to 32 bits; a descriptor that respects those widths is read back.
-/

namespace CourseDb

open Codec

def ColumnType.code : ColumnType → ℕ
  | kInt => 0
  | kString => 1
  | kBool => 2

/-- The unchecked cast. A number that is no column type, which no writer
produces, is taken for the last one. -/
def ColumnType.ofCode : ℕ → ColumnType
  | 0 => kInt
  | 1 => kString
  | _ => kBool

@[simp] theorem ColumnType.ofCode_code (t : ColumnType) : ofCode t.code = t := by
  cases t <;> rfl

theorem ColumnType.code_lt (t : ColumnType) : t.code < 2 ^ 32 := by
  cases t <;> decide

def serializeColumnSchema (column : ColumnSchema) : ByteString :=
  writeString column.name ++ (writeUint32 column.type.code ++ (writeBool column.notNull ++
    (writeBool column.indexed ++ (writeBool column.defaultValue.isSome ++
      match column.defaultValue with
      | none => []
      | some value => serializeValue value))))

def deserializeColumnSchema : Reader Status ColumnSchema := do
  let name ← readString
  let rawType ← readUint32
  let notNull ← readBool
  let indexed ← readBool
  let hasDefault ← readBool
  if hasDefault then do
    let value ← deserializeValue
    return { name, type := .ofCode rawType, notNull, indexed, defaultValue := some value }
  else
    return { name, type := .ofCode rawType, notNull, indexed, defaultValue := none }

def serializeTableSchema (schema : TableSchema) : ByteString :=
  writeUint32 schema.length ++ schema.flatMap serializeColumnSchema

def deserializeTableSchema : Reader Status TableSchema := do
  let columnCount ← readUint32
  Reader.times deserializeColumnSchema columnCount

def serializeIndexDescriptor (index : IndexDescriptor) : ByteString :=
  writeString index.name ++ (writeString index.tableName ++ (writeString index.columnName ++
    (writeString index.filePath ++ writeBool index.unique)))

def deserializeIndexDescriptor : Reader Status IndexDescriptor := do
  let name ← readString
  let tableName ← readString
  let columnName ← readString
  let filePath ← readString
  let unique ← readBool
  return { name, tableName, columnName, filePath, unique }

def serializeTableDescriptor (desc : TableDescriptor) : ByteString :=
  writeString desc.databaseName ++ (writeString desc.tableName ++ (writeString desc.dataFile ++
    (writeString desc.indexDir ++ (serializeTableSchema desc.schema ++
      (writeUint32 desc.indexes.length ++ desc.indexes.flatMap serializeIndexDescriptor)))))

def deserializeTableDescriptor : Reader Status TableDescriptor := do
  let databaseName ← readString
  let tableName ← readString
  let dataFile ← readString
  let indexDir ← readString
  let schema ← deserializeTableSchema
  let indexCount ← readUint32
  let indexes ← Reader.times deserializeIndexDescriptor indexCount
  return { databaseName, tableName, dataFile, indexDir, schema, indexes }

/-! The width of every length and count of a descriptor suffices. -/

structure ColumnSchema.Short (column : ColumnSchema) : Prop where
  name : column.name.length < 2 ^ 32
  defaultValue : ∀ value ∈ column.defaultValue, value.Short

structure IndexDescriptor.Short (index : IndexDescriptor) : Prop where
  name : index.name.length < 2 ^ 32
  tableName : index.tableName.length < 2 ^ 32
  columnName : index.columnName.length < 2 ^ 32
  filePath : index.filePath.length < 2 ^ 32

structure TableDescriptor.Short (desc : TableDescriptor) : Prop where
  databaseName : desc.databaseName.length < 2 ^ 32
  tableName : desc.tableName.length < 2 ^ 32
  dataFile : desc.dataFile.length < 2 ^ 32
  indexDir : desc.indexDir.length < 2 ^ 32
  columns : ∀ column ∈ desc.schema, column.Short
  columnCount : desc.schema.length < 2 ^ 32
  indexes : ∀ index ∈ desc.indexes, index.Short
  indexCount : desc.indexes.length < 2 ^ 32

theorem ColumnSchema.Short.decodes {column : ColumnSchema} (h : column.Short) :
    Decodes deserializeColumnSchema (serializeColumnSchema column) column := by
  refine (readString_decodes h.name).bind ?_
  refine (readUint32_decodes column.type.code_lt).bind ?_
  refine (readBool_decodes column.notNull).bind ?_
  refine (readBool_decodes column.indexed).bind ?_
  refine (readBool_decodes column.defaultValue.isSome).bind ?_
  rw [ColumnType.ofCode_code]
  obtain ⟨name, type, notNull, indexed, default⟩ := column
  cases default with
  | none => exact Decodes.pure _
  | some value => exact (h.defaultValue value rfl).deserializeValue_decodes.map (Decodes.pure _)

theorem IndexDescriptor.Short.decodes {index : IndexDescriptor} (h : index.Short) :
    Decodes deserializeIndexDescriptor (serializeIndexDescriptor index) index :=
  (readString_decodes h.name).bind <| (readString_decodes h.tableName).bind <|
    (readString_decodes h.columnName).bind <| (readString_decodes h.filePath).bind <|
      (readBool_decodes index.unique).map (Decodes.pure _)

theorem TableDescriptor.Short.decodes {desc : TableDescriptor} (h : desc.Short) :
    Decodes deserializeTableDescriptor (serializeTableDescriptor desc) desc := by
  have hschema : Decodes deserializeTableSchema (serializeTableSchema desc.schema) desc.schema :=
    (readUint32_decodes h.columnCount).bind (Decodes.times fun c hc => (h.columns c hc).decodes)
  refine (readString_decodes h.databaseName).bind ?_
  refine (readString_decodes h.tableName).bind ?_
  refine (readString_decodes h.dataFile).bind ?_
  refine (readString_decodes h.indexDir).bind ?_
  refine hschema.bind ?_
  refine (readUint32_decodes h.indexCount).bind ?_
  exact (Decodes.times fun i hi => (h.indexes i hi).decodes).map (Decodes.pure _)

end CourseDb

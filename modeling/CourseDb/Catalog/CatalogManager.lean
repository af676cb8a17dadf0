import CourseDb.Storage.Disk

/-! # The catalog

A database is a directory with a file for the descriptor of each of its tables.
The catalog keeps nothing in memory: every question is answered from the files.
-/

namespace CourseDb

open Fallible (fail ofExcept read_bind bind_ok ofExcept_bind Within Tracks)

namespace CatalogManager

section Paths

variable (rootDir dbName tableName : ByteString)

def databasePath : ByteString := rootDir ++ ascii "/" ++ dbName

def catalogDirPath : ByteString := databasePath rootDir dbName ++ ascii "/catalog"

def tablesDirPath : ByteString := databasePath rootDir dbName ++ ascii "/tables"

def indexesDirPath : ByteString := databasePath rootDir dbName ++ ascii "/indexes"

def versionsDirPath : ByteString := databasePath rootDir dbName ++ ascii "/versions"

def tableMetaPath : ByteString :=
  catalogDirPath rootDir dbName ++ ascii "/" ++ tableName ++ ascii ".meta"

def defaultTableDataPath : ByteString :=
  tablesDirPath rootDir dbName ++ ascii "/" ++ tableName ++ ascii ".tbl"

def defaultTableIndexDir : ByteString := indexesDirPath rootDir dbName ++ ascii "/" ++ tableName

def defaultIndexFilePath (indexDir indexName : ByteString) : ByteString :=
  indexDir ++ ascii "/" ++ indexName ++ ascii ".idx"

end Paths

/-- `std::isspace` in the C locale. -/
def isSpace (b : Byte) : Bool := b = 32 || (9 ≤ b && b ≤ 13)

/-- The loop over the characters of a name. -/
def isValidNameFrom (hasNonSpace prevDot : Bool) : ByteString → Bool
  | [] => hasNonSpace
  | b :: bs =>
    if b = 47 || b = 92 then
      false
    else if b = 46 && prevDot then
      false
    else
      isValidNameFrom (hasNonSpace || !isSpace b) (b = 46) bs

def isValidName (name : ByteString) : Bool := isValidNameFrom false false name

def invalid {α : Type} (message : String) : Except Status α := .error ⟨.kInvalidArgument, message⟩

def validateDatabaseName (dbName : ByteString) : Except Status Unit :=
  if isValidName dbName then .ok () else invalid "Invalid database name"

def validateTableName (tableName : ByteString) : Except Status Unit :=
  if isValidName tableName then .ok () else invalid "Invalid table name"

def validateColumnSchema (column : ColumnSchema) : Except Status Unit :=
  if !isValidName column.name then
    invalid "Invalid column name"
  else
    match column.defaultValue with
    | none => .ok ()
    | some value =>
      if column.type = .kInt ∧ value.type ≠ .kInt then
        invalid "Invalid default value for int column"
      else if column.type = .kString ∧ value.type ≠ .kString then
        invalid "Invalid default value for string column"
      else if column.type = .kBool ∧ value.type ≠ .kBool then
        invalid "Invalid default value for bool column"
      else
        .ok ()

/-- The loop over the columns; `seen` are the names of those before. -/
def validateColumns (seen : List ByteString) : List ColumnSchema → Except Status Unit
  | [] => .ok ()
  | column :: columns => do
    validateColumnSchema column
    if column.name ∈ seen then
      invalid "Duplicate column name"
    else
      validateColumns (column.name :: seen) columns

def validateTableSchema (schema : TableSchema) : Except Status Unit :=
  if schema.isEmpty then
    invalid "Table schema must have at least one column"
  else
    validateColumns [] schema

def validateIndexDescriptor (index : IndexDescriptor) (schema : TableSchema)
    (tableName : ByteString) : Except Status Unit :=
  if !isValidName index.name then
    invalid "Invalid index name"
  else if index.tableName ≠ tableName then
    invalid "Index table name does not match table descriptor"
  else if schema.findColumn index.columnName = none then
    invalid "Index column does not exist in table schema"
  else if index.filePath.isEmpty then
    invalid "Index file path is empty"
  else
    .ok ()

/-- The loop over the indexes; `seen` are the names of those before. -/
def validateIndexes (desc : TableDescriptor) (seen : List ByteString) :
    List IndexDescriptor → Except Status Unit
  | [] => .ok ()
  | index :: indexes => do
    validateIndexDescriptor index desc.schema desc.tableName
    if index.name ∈ seen then
      invalid "Duplicate index name"
    else
      validateIndexes desc (index.name :: seen) indexes

def validateTableDescriptor (desc : TableDescriptor) : Except Status Unit := do
  validateDatabaseName desc.databaseName
  validateTableName desc.tableName
  validateTableSchema desc.schema
  validateIndexes desc [] desc.indexes
  if desc.dataFile.isEmpty then
    invalid "Table data file path is empty"
  else if desc.indexDir.isEmpty then
    invalid "Table index directory path is empty"
  else
    .ok ()

def orDefault (value default : ByteString) : ByteString := if value.isEmpty then default else value

def normalizeTableDescriptor (rootDir : ByteString) (desc : TableDescriptor) : TableDescriptor :=
  let indexDir := orDefault desc.indexDir
    (defaultTableIndexDir rootDir desc.databaseName desc.tableName)
  { desc with
    dataFile := orDefault desc.dataFile
      (defaultTableDataPath rootDir desc.databaseName desc.tableName)
    indexDir
    indexes := desc.indexes.map fun index =>
      { index with
        tableName := orDefault index.tableName desc.tableName
        filePath := orDefault index.filePath (defaultIndexFilePath indexDir index.name) } }

/-! ## The calls, on any directories and files -/

/-- The directories that the catalog works on. -/
class DirStore (σ : Type) where
  isDir : ByteString → σ → Bool
  ensureDir : ByteString → Fallible Status σ Unit
  removeAll : ByteString → Fallible Status σ Unit

/-- The directories and files that the catalog works on. -/
class CatalogStore (σ : Type) extends DirStore σ where
  hasPath : ByteString → σ → Bool
  remove : ByteString → Fallible Status σ Unit
  writeTableMetaFile : ByteString → TableDescriptor → Fallible Status σ Unit
  readTableMetaFile : ByteString → σ → Except Status TableDescriptor

open DirStore CatalogStore

def databaseNotFound : Status := ⟨.kNotFound, "Database not found"⟩

def tableNotFound : Status := ⟨.kNotFound, "Table metadata not found"⟩

section Directories

variable {σ : Type} [DirStore σ] (rootDir dbName : ByteString)

def databaseExists (s : σ) : Bool := isDir (databasePath rootDir dbName) s

def createDatabase : Fallible Status σ Unit := do
  ofExcept (validateDatabaseName dbName)
  ensureDir rootDir
  let s ← Fallible.read
  if databaseExists rootDir dbName s then
    fail ⟨.kAlreadyExists, "Database already exists"⟩
  else
    ensureDir (databasePath rootDir dbName)
    ensureDir (catalogDirPath rootDir dbName)
    ensureDir (tablesDirPath rootDir dbName)
    ensureDir (indexesDirPath rootDir dbName)
    ensureDir (versionsDirPath rootDir dbName)

def dropDatabase : Fallible Status σ Unit := do
  ofExcept (validateDatabaseName dbName)
  let s ← Fallible.read
  if !databaseExists rootDir dbName s then
    fail databaseNotFound
  else
    removeAll (databasePath rootDir dbName)

end Directories

section Files

variable {σ : Type} [CatalogStore σ] (rootDir : ByteString)

def createTable (table : TableDescriptor) : Fallible Status σ Unit := do
  let s ← Fallible.read
  if !databaseExists rootDir table.databaseName s then
    fail databaseNotFound
  else
    let normalized := normalizeTableDescriptor rootDir table
    ofExcept (validateTableDescriptor normalized)
    let metaPath := tableMetaPath rootDir normalized.databaseName normalized.tableName
    if hasPath metaPath s then
      fail ⟨.kAlreadyExists, "Table already exists"⟩
    else
      writeTableMetaFile metaPath normalized

variable (dbName tableName : ByteString)

/-- What `DropTable` and `GetTable` ask before they look at the descriptor. -/
def findTableMeta (s : σ) : Except Status ByteString := do
  validateDatabaseName dbName
  validateTableName tableName
  if !databaseExists rootDir dbName s then
    .error databaseNotFound
  else if !hasPath (tableMetaPath rootDir dbName tableName) s then
    .error tableNotFound
  else
    .ok (tableMetaPath rootDir dbName tableName)

def dropTable : Fallible Status σ Unit := do
  let s ← Fallible.read
  let metaPath ← ofExcept (findTableMeta rootDir dbName tableName s)
  remove metaPath

def getTable (s : σ) : Except Status TableDescriptor := do
  let metaPath ← findTableMeta rootDir dbName tableName s
  readTableMetaFile metaPath s

end Files

section Names

variable {db name : ByteString} {table : TableDescriptor}

theorem isValidName_ne_nil (h : isValidName name = true) : name ≠ [] := by
  rintro rfl
  cases h

theorem isValidName_of_databaseName (h : validateDatabaseName name = .ok ()) :
    isValidName name = true := by
  by_contra hname
  simp [validateDatabaseName, hname, invalid] at h

theorem isValidName_of_tableName (h : validateTableName name = .ok ()) :
    isValidName name = true := by
  by_contra hname
  simp [validateTableName, hname, invalid] at h

theorem names_of_validateTableDescriptor (h : validateTableDescriptor table = .ok ()) :
    validateDatabaseName table.databaseName = .ok () ∧
      validateTableName table.tableName = .ok () := by
  unfold validateTableDescriptor at h
  obtain ⟨⟨⟩, hdatabase, h⟩ := except_bind_eq_ok.mp h
  obtain ⟨⟨⟩, htable, -⟩ := except_bind_eq_ok.mp h
  exact ⟨hdatabase, htable⟩

end Names

section Cases

variable {σ : Type} [CatalogStore σ] {rootDir db tbl metaPath : ByteString} {table : TableDescriptor}
  {s : σ}

theorem createDatabase_within {R : σ → σ → Prop} [Std.Refl R] [IsTrans σ R]
    (h : ∀ path, Within R (ensureDir path)) : Within R (createDatabase rootDir db) := by
  refine (Within.ofExcept _).bind fun _ => (h rootDir).bind fun _ => Within.read.bind fun s => ?_
  split_ifs
  · exact Within.fail _
  · exact (h _).bind fun _ => (h _).bind fun _ => (h _).bind fun _ => (h _).bind fun _ => h _

/-- The catalog takes the table, if it can write the descriptor. -/
structure Admits (rootDir : ByteString) (table : TableDescriptor) (s : σ) : Prop where
  database : databaseExists rootDir table.databaseName s = true
  valid : validateTableDescriptor (normalizeTableDescriptor rootDir table) = .ok ()
  absent : hasPath (tableMetaPath rootDir table.databaseName table.tableName) s = false

theorem createTable_of_admits (h : Admits rootDir table s) :
    createTable rootDir table s =
      writeTableMetaFile (tableMetaPath rootDir table.databaseName table.tableName)
        (normalizeTableDescriptor rootDir table) s := by
  unfold createTable
  rw [read_bind, if_neg (by simp [h.database]), ofExcept_bind h.valid]
  exact congrFun (if_neg (Bool.eq_false_iff.mp h.absent)) s

theorem createTable_of_not_admits (h : ¬ Admits rootDir table s) :
    ∃ e, createTable rootDir table s = (.error e, s) := by
  unfold createTable
  rw [read_bind]
  by_cases hdatabase : databaseExists rootDir table.databaseName s = true
  · rw [if_neg (by simp [hdatabase])]
    rcases hvalid : validateTableDescriptor (normalizeTableDescriptor rootDir table) with e | ⟨⟩
    · exact ⟨e, rfl⟩
    · rw [ofExcept_bind rfl]
      split_ifs with hpath
      · exact ⟨_, rfl⟩
      · exact absurd ⟨hdatabase, hvalid, Bool.eq_false_iff.mpr hpath⟩ h
  · rw [if_pos (by simpa using hdatabase)]
    exact ⟨_, rfl⟩

theorem findTableMeta_ok : findTableMeta rootDir db tbl s = .ok metaPath ↔
    validateDatabaseName db = .ok () ∧ validateTableName tbl = .ok () ∧
      databaseExists rootDir db s = true ∧ hasPath (tableMetaPath rootDir db tbl) s = true ∧
        metaPath = tableMetaPath rootDir db tbl := by
  unfold findTableMeta
  rw [except_bind_eq_ok]
  constructor
  · rintro ⟨⟨⟩, hdb, h⟩
    obtain ⟨⟨⟩, ht, h⟩ := except_bind_eq_ok.mp h
    split_ifs at h with hdatabase hpath
    cases h
    exact ⟨hdb, ht, by simpa using hdatabase, by simpa using hpath, rfl⟩
  · rintro ⟨hdb, ht, hdatabase, hpath, rfl⟩
    refine ⟨(), hdb, except_bind_eq_ok.mpr ⟨(), ht, ?_⟩⟩
    rw [if_neg (by simp [hdatabase]), if_neg (by simp [hpath])]

theorem getTable_of_find (h : findTableMeta rootDir db tbl s = .ok metaPath) :
    getTable rootDir db tbl s = readTableMetaFile metaPath s := by
  rw [getTable, h]
  rfl

/-- A table that is found is read from the file of its descriptor. -/
theorem getTable_ok {desc : TableDescriptor} : getTable rootDir db tbl s = .ok desc ↔
    findTableMeta rootDir db tbl s = .ok (tableMetaPath rootDir db tbl) ∧
      readTableMetaFile (tableMetaPath rootDir db tbl) s = .ok desc := by
  refine except_bind_eq_ok.trans ⟨?_, fun h => ⟨_, h⟩⟩
  rintro ⟨path, hfind, hread⟩
  obtain rfl := (findTableMeta_ok.mp hfind).2.2.2.2
  exact ⟨hfind, hread⟩

theorem dropTable_cases (rootDir db tbl : ByteString) (s : σ) :
    (∃ e, dropTable rootDir db tbl s = (.error e, s)) ∨
      validateTableName tbl = .ok () ∧
        dropTable rootDir db tbl s = remove (tableMetaPath rootDir db tbl) s := by
  unfold dropTable
  rw [read_bind]
  rcases hfind : findTableMeta rootDir db tbl s with e | metaPath
  · exact .inl ⟨e, rfl⟩
  · obtain ⟨-, ht, -, -, rfl⟩ := findTableMeta_ok.mp hfind
    exact .inr ⟨ht, rfl⟩

end Cases

section Tracks

variable {σ τ : Type} [DirStore σ] [DirStore τ] {R : σ → τ → Prop} {rootDir db : ByteString}

/-- Related states agree on the directory of a database, and stay related when the
directories of the database are made or removed. -/
structure SameDirs (R : σ → τ → Prop) (rootDir db : ByteString) : Prop where
  isDir : ∀ s t, R s t → databaseExists rootDir db s = databaseExists rootDir db t
  ensureDir : ∀ path ∈ [rootDir, databasePath rootDir db, catalogDirPath rootDir db,
    tablesDirPath rootDir db, indexesDirPath rootDir db, versionsDirPath rootDir db],
    Tracks R (ensureDir path) (ensureDir path)
  removeAll : Tracks R (removeAll (databasePath rootDir db)) (removeAll (databasePath rootDir db))

theorem createDatabase_tracks (h : validateDatabaseName db = .ok () → SameDirs R rootDir db) :
    Tracks R (createDatabase rootDir db) (createDatabase rootDir db) := by
  refine Tracks.ofExcept_bind fun _ hvalid => ?_
  have hmade := (h hvalid).ensureDir
  refine (hmade _ (by simp)).bind fun _ => Tracks.read_bind fun s t hst => ?_
  rw [(h hvalid).isDir s t hst]
  split_ifs
  · exact Tracks.fail _
  · exact (hmade _ (by simp)).bind fun _ => (hmade _ (by simp)).bind fun _ =>
      (hmade _ (by simp)).bind fun _ => (hmade _ (by simp)).bind fun _ => hmade _ (by simp)

theorem dropDatabase_tracks (h : validateDatabaseName db = .ok () → SameDirs R rootDir db) :
    Tracks R (dropDatabase rootDir db) (dropDatabase rootDir db) := by
  refine Tracks.ofExcept_bind fun _ hvalid => Tracks.read_bind fun s t hst => ?_
  rw [(h hvalid).isDir s t hst]
  split_ifs
  · exact Tracks.fail _
  · exact (h hvalid).removeAll

end Tracks

def cannotOpen : Status := ⟨.kInternalError, "Failed to open file"⟩

end CatalogManager

/-! ## The files of a node -/

namespace Disk

open CatalogManager

/-- A file is only created in a directory that exists. -/
def writeTableMetaFile (path : ByteString) (desc : TableDescriptor) : Action Unit := do
  let d ← Fallible.read
  if d.isDir (parent path) then
    Fallible.modify (FileSystem.create path (.metadata desc))
  else
    fail cannotOpen

/-- A file that holds no descriptor starts with a length its bytes do not reach. -/
def readTableMetaFile (path : ByteString) (d : Disk) : Except Status TableDescriptor :=
  match d.content path with
  | some (.metadata desc) => do
    validateTableDescriptor desc
    return desc
  | some _ => .error unexpectedEnd
  | none => .error cannotOpen

instance instCatalogStore : CatalogStore Disk where
  isDir path d := d.isDir path
  ensureDir := ensureDir
  removeAll path := Fallible.modify (FileSystem.removeAll separator path)
  hasPath path d := d.hasPath path
  remove path := Fallible.modify (FileSystem.remove path)
  writeTableMetaFile := writeTableMetaFile
  readTableMetaFile := readTableMetaFile

end Disk

end CourseDb

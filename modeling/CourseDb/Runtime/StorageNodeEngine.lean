import CourseDb.Index.IndexManager

/-! # The storage engine

Each call on a row works on the table, then on its indexes one after the other,
then on the version log, and stops at the first step that fails. What the steps
before have done stays.
-/

namespace CourseDb.StorageNodeEngine

open Fallible (fail ofExcept)

def makeTableCacheKey (dbName tableName : ByteString) : ByteString :=
  dbName ++ ascii "::" ++ tableName

def makeVersionLogCacheKey (dbName tableName : ByteString) : ByteString :=
  dbName ++ ascii "::" ++ tableName

def notStarted : Status := ⟨.kInternalError, "StorageNodeEngine is not started"⟩

def ensureStarted : Action Unit := do
  let e ← Fallible.read
  if e.started then return () else fail notStarted

def loadTableDescriptor (dbName tableName : ByteString) : Action TableDescriptor := do
  let e ← Fallible.read
  ofExcept (CatalogManager.getTable e.config.dataDir dbName tableName e.disk)

/-- `operator/` of `std::filesystem::path`, for a relative right side. -/
def joinPath (dir name : ByteString) : ByteString :=
  if dir.isEmpty || dir.getLast? = some Disk.separator then dir ++ name
  else dir ++ ascii "/" ++ name

def resolveVersionLogPath (config : Config) (descriptor : TableDescriptor) : ByteString :=
  joinPath (joinPath (joinPath config.dataDir descriptor.databaseName) (ascii "versions"))
    (descriptor.tableName ++ ascii ".vlog")

def openTable (dbName tableName : ByteString) : Action OpenTableState := do
  let e ← Fallible.read
  match e.openedTables (makeTableCacheKey dbName tableName) with
  | some table => return table
  | none =>
    let descriptor ← loadTableDescriptor dbName tableName
    let file ← openTableFile descriptor.dataFile
    Fallible.modify fun e =>
      { e with
        openedTables := Function.update e.openedTables (makeTableCacheKey dbName tableName)
          (some { descriptor, file }) }
    return { descriptor, file }

def openVersionLog (dbName tableName : ByteString) : Action ℕ := do
  let e ← Fallible.read
  match e.openedVersionLogs (makeVersionLogCacheKey dbName tableName) with
  | some file => return file
  | none =>
    let descriptor ← loadTableDescriptor dbName tableName
    let file ← openVersionLogFile (resolveVersionLogPath e.config descriptor)
    Fallible.modify fun e =>
      { e with
        openedVersionLogs := Function.update e.openedVersionLogs
          (makeVersionLogCacheKey dbName tableName) (some file) }
    return file

def indexedColumnNotFound : Status :=
  ⟨.kInternalError, "Indexed column not found in schema"⟩

def extractIndexKey (descriptor : TableDescriptor) (index : IndexDescriptor) (tuple : Tuple) :
    Except Status Value :=
  match descriptor.schema.findColumn index.columnName with
  | none => .error indexedColumnNotFound
  | some column =>
    match tuple[column]? with
    | none => .error ⟨.kInternalError, "Tuple does not contain indexed column"⟩
    | some value => .ok value

/-- The loop of `EnsureTableIndexesCreated` and of `OpenTableIndexes`. -/
def registerIndexes (schema : TableSchema) (register : IndexDescriptor → ValueType → Action Unit) :
    List IndexDescriptor → Action Unit
  | [] => return ()
  | index :: indexes =>
    match schema.findColumnSchema index.columnName with
    | none => fail indexedColumnNotFound
    | some column => do
      register index column.type.toValueType
      registerIndexes schema register indexes

def ensureTableIndexesCreated (descriptor : TableDescriptor) : Action Unit := do
  if descriptor.indexes.isEmpty then
    return ()
  else
    onDisk (Disk.ensureDir descriptor.indexDir)
    registerIndexes descriptor.schema IndexManager.createIndex descriptor.indexes

def openTableIndexes (descriptor : TableDescriptor) : Action Unit :=
  registerIndexes descriptor.schema IndexManager.openIndex descriptor.indexes

/-- The loop of `InsertIntoIndexes` and `DeleteFromIndexes`; an index without a key is skipped. -/
def eachKey (descriptor : TableDescriptor) (tuple : Tuple)
    (act : ByteString → Value → Action Unit) : List IndexDescriptor → Action Unit
  | [] => return ()
  | index :: indexes => do
    let key ← ofExcept (extractIndexKey descriptor index tuple)
    if key.isNull then
      eachKey descriptor tuple act indexes
    else
      act index.name key
      eachKey descriptor tuple act indexes

def insertIntoIndexes (descriptor : TableDescriptor) (tuple : Tuple) (rid : ℕ) :
    List IndexDescriptor → Action Unit :=
  eachKey descriptor tuple fun name key => IndexManager.insert name key rid

def deleteFromIndexes (descriptor : TableDescriptor) (tuple : Tuple) :
    List IndexDescriptor → Action Unit :=
  eachKey descriptor tuple IndexManager.delete

/-- What `UpdateIndexes` does with one index. -/
def updateIndex (index : IndexDescriptor) (oldKey newKey : Value) (rid : ℕ) : Action Unit := do
  if oldKey.isNull && newKey.isNull then
    return ()
  else if oldKey.isNull then
    IndexManager.insert index.name newKey rid
  else if newKey.isNull then
    IndexManager.delete index.name oldKey
  else if oldKey = newKey then
    return ()
  else
    IndexManager.delete index.name oldKey
    IndexManager.insert index.name newKey rid

def updateIndexes (descriptor : TableDescriptor) (before after : Tuple) (rid : ℕ) :
    List IndexDescriptor → Action Unit
  | [] => return ()
  | index :: indexes => do
    let oldKey ← ofExcept (extractIndexKey descriptor index before)
    let newKey ← ofExcept (extractIndexKey descriptor index after)
    updateIndex index oldKey newKey rid
    updateIndexes descriptor before after rid indexes

/-- `AppendInsertVersion`, `AppendUpdateVersion` and `AppendDeleteVersion`. -/
def appendVersion (dbName tableName : ByteString) (rid : ℕ) (op : VersionOp)
    (before after : Tuple) : Action Unit := do
  let log ← openVersionLog dbName tableName
  let timestampMs ← nowTimestampMs
  onVersionLog log (VersionLog.append { timestampMs, tableName, rid, op, before, after })

def start : Action Unit := Fallible.modify fun e => { e with started := true }

/-- `Stop`; the indexes stay open. -/
def stop : Action Unit :=
  Fallible.modify fun e =>
    { e with
      openedTables := fun _ => none
      openedVersionLogs := fun _ => none
      started := false }

def createDatabase (dbName : ByteString) : Action Unit := do
  ensureStarted
  let e ← Fallible.read
  onDisk (CatalogManager.createDatabase e.config.dataDir dbName)

def eraseDatabase {β : Type} (dbName : ByteString) (cache : ByteString → Option β) :
    ByteString → Option β := fun key =>
  if (dbName ++ ascii "::").isPrefixOf key then none else cache key

def dropDatabase (dbName : ByteString) : Action Unit := do
  ensureStarted
  Fallible.modify fun e =>
    { e with
      openedTables := eraseDatabase dbName e.openedTables
      openedVersionLogs := eraseDatabase dbName e.openedVersionLogs }
  let e ← Fallible.read
  onDisk (CatalogManager.dropDatabase e.config.dataDir dbName)

def createTable (desc : TableDescriptor) : Action Unit := do
  ensureStarted
  let e ← Fallible.read
  onDisk (CatalogManager.createTable e.config.dataDir desc)
  let normalized ← loadTableDescriptor desc.databaseName desc.tableName
  ensureTableIndexesCreated normalized

def dropTable (dbName tableName : ByteString) : Action Unit := do
  ensureStarted
  Fallible.modify fun e =>
    { e with
      openedTables := Function.update e.openedTables (makeTableCacheKey dbName tableName) none
      openedVersionLogs :=
        Function.update e.openedVersionLogs (makeVersionLogCacheKey dbName tableName) none }
  let e ← Fallible.read
  onDisk (CatalogManager.dropTable e.config.dataDir dbName tableName)

def getTableDescriptor (dbName tableName : ByteString) : Action TableDescriptor := do
  ensureStarted
  loadTableDescriptor dbName tableName

section Rows

variable (dbName tableName : ByteString)

def scanTable : Action (List Row) := do
  ensureStarted
  let table ← openTable dbName tableName
  onTable table.file TableStorage.scan

/-- What the calls on a row begin with. -/
def openForChange : Action OpenTableState := do
  ensureStarted
  let table ← openTable dbName tableName
  openTableIndexes table.descriptor
  return table

def insertInternal (tuple : Tuple) (writeVersionRecord : Bool) : Action ℕ := do
  let table ← openForChange dbName tableName
  let rid ← onTable table.file (TableStorage.insert table.descriptor.schema tuple)
  let inserted ← onTable table.file (TableStorage.get rid)
  insertIntoIndexes table.descriptor inserted.tuple rid table.descriptor.indexes
  if writeVersionRecord then
    appendVersion dbName tableName rid .kInsert [] inserted.tuple
    return rid
  else
    return rid

def updateInternal (rid : ℕ) (tuple : Tuple) (writeVersionRecord : Bool) : Action Unit := do
  let table ← openForChange dbName tableName
  let before ← onTable table.file (TableStorage.get rid)
  onTable table.file (TableStorage.update table.descriptor.schema rid tuple)
  let after ← onTable table.file (TableStorage.get rid)
  updateIndexes table.descriptor before.tuple after.tuple rid table.descriptor.indexes
  if writeVersionRecord then
    appendVersion dbName tableName rid .kUpdate before.tuple after.tuple
  else
    return ()

def deleteInternal (rid : ℕ) (writeVersionRecord : Bool) : Action Unit := do
  let table ← openForChange dbName tableName
  let before ← onTable table.file (TableStorage.get rid)
  deleteFromIndexes table.descriptor before.tuple table.descriptor.indexes
  onTable table.file (TableStorage.delete rid)
  if writeVersionRecord then
    appendVersion dbName tableName rid .kDelete before.tuple []
  else
    return ()

/-- Only a row that is missing may be restored. -/
def ensureMissing (file rid : ℕ) : Action Unit := fun e =>
  match onTable file (TableStorage.get rid) e with
  | (.ok _, e) => (.error ⟨.kAlreadyExists, "Row already exists"⟩, e)
  | (.error status, e) => if status.code ≠ .kNotFound then (.error status, e) else (.ok (), e)

def restoreInternal (rid : ℕ) (tuple : Tuple) (writeVersionRecord : Bool) : Action Unit := do
  let table ← openForChange dbName tableName
  ensureMissing table.file rid
  onTable table.file (TableStorage.restore table.descriptor.schema rid tuple)
  let restored ← onTable table.file (TableStorage.get rid)
  insertIntoIndexes table.descriptor restored.tuple rid table.descriptor.indexes
  if writeVersionRecord then
    appendVersion dbName tableName rid .kInsert [] restored.tuple
  else
    return ()

def insert (tuple : Tuple) : Action ℕ := insertInternal dbName tableName tuple true

def update (rid : ℕ) (tuple : Tuple) : Action Unit := updateInternal dbName tableName rid tuple true

def delete (rid : ℕ) : Action Unit := deleteInternal dbName tableName rid true

end Rows

end CourseDb.StorageNodeEngine

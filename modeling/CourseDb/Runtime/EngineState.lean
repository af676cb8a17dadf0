import CourseDb.Catalog.CatalogManager
import CourseDb.Storage.TableStorage

/-! # The state of a storage engine

An engine keeps open files in three caches: tables and version logs under the
names of database and table, indexes under the name of the index alone. An open
file is known by its number, and its content is read and written on the disk.
-/

namespace CourseDb

open Fallible (fail ofExcept)

theorem defaultPageSize_lt : 4096 < 2 ^ 32 := by decide

structure Config where
  dataDir : ByteString := ascii "./data"
  pageSize : ℕ := 4096
  /-- Offsets within a page are 32-bit integers. -/
  pageSize_lt : pageSize < 2 ^ 32 := by first | exact defaultPageSize_lt | decide

structure OpenTableState where
  descriptor : TableDescriptor
  /-- The number of the open data file. -/
  file : ℕ

structure StorageNodeEngine where
  config : Config
  disk : Disk
  started : Bool
  openedTables : ByteString → Option OpenTableState
  openedVersionLogs : ByteString → Option ℕ
  /-- `IndexManager::opened_indexes_`. -/
  openedIndexes : ByteString → Option ℕ
  /-- The readings of the clock that are still to come. -/
  clock : ℕ → ℤ

namespace StorageNodeEngine

variable {α : Type}

abbrev Action (α : Type) := Fallible Status StorageNodeEngine α

def new (config : Config) (disk : Disk) (clock : ℕ → ℤ) : StorageNodeEngine :=
  { config, disk, started := false, openedTables := fun _ => none,
    openedVersionLogs := fun _ => none, openedIndexes := fun _ => none, clock }

def onDisk (x : Disk.Action α) : Action α :=
  Fallible.zoom disk (fun d e => { e with disk := d }) x

/-- The status of a failed read; an open file always has the content it was opened with. -/
def cannotRead : Status := ⟨.kIoError, "Failed to read page"⟩

def onTable (file : ℕ) (x : Heap.Action α) : Action α := fun e =>
  match e.disk.files file with
  | some (.table heap) => ((x heap).1, { e with disk := e.disk.write file (.table (x heap).2) })
  | _ => (.error cannotRead, e)

def onIndex (file : ℕ) (x : KeyIndex.Action α) : Action α := fun e =>
  match e.disk.files file with
  | some (.index index) => ((x index).1, { e with disk := e.disk.write file (.index (x index).2) })
  | _ => (.error cannotRead, e)

def onVersionLog (file : ℕ) (x : VersionLog.Action α) : Action α := fun e =>
  match e.disk.files file with
  | some (.versionLog records) =>
    ((x records).1, { e with disk := e.disk.write file (.versionLog (x records).2) })
  | _ => (.error cannotRead, e)

def nowTimestampMs : Action ℤ := fun e => (.ok (e.clock 0), { e with clock := fun n => e.clock (n + 1) })

def createFile (path : ByteString) (content : FileContent) : Action ℕ := fun e =>
  (.ok e.disk.nextFile, { e with disk := e.disk.create path content })

def invalidPageFileMagic : Status := ⟨.kInvalidArgument, "Invalid page file magic"⟩

/-- The status of opening a version log as a page file: its header is shorter
than that of a page file. -/
def notPageFile (records : List VersionRecord) : Status :=
  if records.isEmpty then
    ⟨.kInvalidArgument, "Page file is smaller than required header"⟩
  else
    invalidPageFileMagic

/-- The page size in the header of a page file is that of the engine. -/
def checkPageSize (stored pageSize : ℕ) : Except Status Unit :=
  if stored ≠ pageSize then
    .error ⟨.kInvalidArgument, "Page size mismatch: file uses " ++ toString stored ++
      ", manager was configured with " ++ toString pageSize⟩
  else
    .ok ()

/-- `PageManager::Open` makes the directory of its file. -/
def ensureParentDir (path : ByteString) : Action Unit :=
  if (Disk.parent path).isEmpty then pure () else onDisk (Disk.ensureDir (Disk.parent path))

def metadataMagicInvalid (pageSize : ℕ) : Status :=
  if pageSize < RowStore.metadataPagePayloadOffset then
    ⟨.kInvalidArgument, "RowStore metadata page is smaller than magic"⟩
  else
    ⟨.kInvalidArgument, "Invalid RowStore metadata magic"⟩

/-- A new table file gets a metadata page, which a small page cannot hold. -/
def createTableFile (path : ByteString) : Action ℕ := do
  let e ← Fallible.read
  if e.config.pageSize < 36 then
    let _ ← createFile path (.blank e.config.pageSize)
    fail RowStore.metadataTooLarge
  else
    createFile path (.table (Heap.empty e.config.pageSize))

/-- `TableStorage::Open`. -/
def openTableFile (path : ByteString) : Action ℕ := do
  let e ← Fallible.read
  if path.isEmpty then
    fail ⟨.kInvalidArgument, "Table data file path is empty"⟩
  else if e.config.pageSize = 0 then
    fail ⟨.kInvalidArgument, "Invalid file path or page size"⟩
  else
    ensureParentDir path
    match e.disk.paths path with
    | none => createTableFile path
    | some file =>
      match e.disk.files file with
      | some (.table heap) =>
        ofExcept (checkPageSize heap.pageSize e.config.pageSize)
        return file
      | some (.index index) =>
        ofExcept (checkPageSize index.cfg.pageSize e.config.pageSize)
        fail (metadataMagicInvalid e.config.pageSize)
      | some (.versionLog records) => fail (notPageFile records)
      | some (.metadata _) => fail invalidPageFileMagic
      | some (.blank pageSize) =>
        ofExcept (checkPageSize pageSize e.config.pageSize)
        fail (metadataMagicInvalid e.config.pageSize)
      | none => fail cannotRead

def treeMagicInvalid : Status := ⟨.kInvalidArgument, "Invalid BStarTree metadata magic"⟩

/-- `BStarTree::Open` on a tree with the settings `cfg`. -/
def openIndexFile (path : ByteString) (cfg : BStarTree.Config) : Action ℕ := do
  let e ← Fallible.read
  ensureParentDir path
  match e.disk.paths path with
  | none => createFile path (.index (KeyIndex.empty cfg))
  | some file =>
    match e.disk.files file with
    | some (.index index) =>
      ofExcept (checkPageSize index.cfg.pageSize cfg.pageSize)
      ofExcept (KeyIndex.checkMetadata index.cfg cfg)
      return file
    | some (.table heap) =>
      ofExcept (checkPageSize heap.pageSize cfg.pageSize)
      fail treeMagicInvalid
    | some (.versionLog records) => fail (notPageFile records)
    | some (.metadata _) => fail invalidPageFileMagic
    | some (.blank pageSize) =>
      ofExcept (checkPageSize pageSize cfg.pageSize)
      fail treeMagicInvalid
    | none => fail cannotRead

/-- `VersionLog::Open`. -/
def openVersionLogFile (path : ByteString) : Action ℕ := do
  let e ← Fallible.read
  match e.disk.paths path with
  | none =>
    ensureParentDir path
    createFile path (.versionLog [])
  | some file =>
    match e.disk.files file with
    | some (.versionLog _) => return file
    | _ => fail ⟨.kInvalidArgument, "Invalid version log magic"⟩

end StorageNodeEngine

end CourseDb

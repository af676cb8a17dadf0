import CourseDb.Common.Serialization
import CourseDb.Storage.PageManager

/-! # The row store

A row store keeps serialized rows in the data pages of a page file. Page 0
holds the counters. An insertion goes into the first page with enough free
space; an update, deletion or restoration loads every row, changes one of them
and packs all rows into pages again.
-/

namespace CourseDb

open Codec
open Fallible (fail ofExcept)

structure RowStore where
  pageSize : ℕ
  pageManager : PageManager
  isOpen : Bool
  nextRowId : ℕ
  dataPageCount : ℕ
  activeRowCount : ℕ

namespace RowStore

abbrev Action (α : Type) := Fallible Status RowStore α

/-- "CDBRSTR1" -/
def rowStoreMagic : ByteString := [67, 68, 66, 82, 83, 84, 82, 49]

/-- "CDBRPAGE" -/
def dataPageMagic : ByteString := [67, 68, 66, 82, 80, 65, 71, 69]

def rowStoreVersion : ℕ := 1

structure Metadata where
  version : ℕ
  nextRowId : ℕ
  dataPageCount : ℕ
  activeRowCount : ℕ

structure DataPageHeader where
  version : ℕ
  entryCount : ℕ
  usedBytes : ℕ

def metadataPageId : ℕ := 0

def metadataPagePayloadOffset : ℕ := rowStoreMagic.length

def dataPagePayloadOffset : ℕ := dataPageMagic.length

def serializeMetadata (m : Metadata) : ByteString :=
  rowStoreMagic ++ (writeUint32 m.version ++ (writeUint64 m.nextRowId ++
    (writeUint64 m.dataPageCount ++ writeUint64 m.activeRowCount)))

def readMetadata : Reader Status Metadata := do
  let version ← readUint32
  let nextRowId ← readUint64
  let dataPageCount ← readUint64
  let activeRowCount ← readUint64
  return { version, nextRowId, dataPageCount, activeRowCount }

def deserializeMetadata (bytes : ByteString) : Except Status Metadata :=
  if bytes.length < metadataPagePayloadOffset then
    .error ⟨.kInvalidArgument, "RowStore metadata page is smaller than magic"⟩
  else if bytes.take rowStoreMagic.length ≠ rowStoreMagic then
    .error ⟨.kInvalidArgument, "Invalid RowStore metadata magic"⟩
  else
    (readMetadata bytes metadataPagePayloadOffset).map Prod.fst

def serializeDataPageHeader (h : DataPageHeader) : ByteString :=
  dataPageMagic ++ (writeUint32 h.version ++ (writeUint32 h.entryCount ++
    writeUint32 h.usedBytes))

def readDataPageHeader : Reader Status DataPageHeader := do
  let version ← readUint32
  let entryCount ← readUint32
  let usedBytes ← readUint32
  return { version, entryCount, usedBytes }

def deserializeDataPageHeader (bytes : ByteString) : Except Status DataPageHeader :=
  if bytes.length < dataPagePayloadOffset then
    .error ⟨.kInvalidArgument, "RowStore data page is smaller than magic"⟩
  else if bytes.take dataPageMagic.length ≠ dataPageMagic then
    .error ⟨.kInvalidArgument, "Invalid RowStore data page magic"⟩
  else
    (readDataPageHeader bytes dataPagePayloadOffset).map Prod.fst

def serializeRowEntry (row : Row) : ByteString :=
  writeUint32 (serializeRow row).length ++ serializeRow row

def deserializeRowEntry : Reader Status Row := do
  let rowSize ← readUint32
  ensureReadable rowSize
  Reader.sized ⟨.kInvalidArgument, "Row payload size does not match serialized size"⟩ rowSize
    deserializeRow

def dataPageIdFromOrdinal (ordinal : ℕ) : ℕ := ordinal + 1

/-- The bytes of a data page before its entries. -/
def pageHeaderSize : ℕ := dataPagePayloadOffset + 4 * 3

/-- A zeroed page with `bytes` copied to its front. -/
def fillPage (pageSize : ℕ) (bytes : ByteString) : ByteString :=
  bytes ++ List.replicate (pageSize - bytes.length) 0

def onPages {α : Type} (x : Fallible Status PageManager α) : Action α :=
  Fallible.zoom pageManager (fun pm s => { s with pageManager := pm }) x

def new (pageSize : ℕ) (file : Option PageFile) : RowStore :=
  { pageSize, pageManager := PageManager.new pageSize file, isOpen := false,
    nextRowId := 0, dataPageCount := 0, activeRowCount := 0 }

def notOpen : Status := ⟨.kInternalError, "RowStore is not open"⟩

def metadataTooLarge : Status :=
  ⟨.kInternalError, "RowStore metadata does not fit into a page"⟩

def initializeStore : Action Unit := do
  let metadataPage ← onPages PageManager.allocatePage
  if metadataPage ≠ metadataPageId then
    fail ⟨.kInternalError, "RowStore metadata page must be allocated first"⟩
  else
    let bytes := serializeMetadata
      { version := rowStoreVersion, nextRowId := 0, dataPageCount := 0, activeRowCount := 0 }
    let s ← Fallible.read
    if bytes.length > s.pageSize then
      fail metadataTooLarge
    else
      onPages (PageManager.writePage metadataPage (fillPage s.pageSize bytes))
      Fallible.modify fun s => { s with nextRowId := 0, dataPageCount := 0, activeRowCount := 0 }

def loadMetadata (page : ByteString) : Action Unit := do
  let metadata ← ofExcept (deserializeMetadata page)
  if metadata.version ≠ rowStoreVersion then
    fail ⟨.kInvalidArgument, "Unsupported RowStore metadata version"⟩
  else
    Fallible.modify fun s =>
      { s with
        nextRowId := metadata.nextRowId
        dataPageCount := metadata.dataPageCount
        activeRowCount := metadata.activeRowCount }

/-- Read the counters from page 0, or create it if the file has no pages. -/
def loadOrInitialize : Action Unit := do
  let s ← Fallible.read
  match (PageManager.readPage metadataPageId s.pageManager).1 with
  | .error status => if status.code ≠ .kNotFound then fail status else initializeStore
  | .ok page => loadMetadata page

def openStore : Action Unit := do
  let s ← Fallible.read
  if s.isOpen then
    return ()
  else
    onPages PageManager.openFile
    loadOrInitialize
    Fallible.modify fun s => { s with isOpen := true }

/-- The entries of a data page up to `usedEnd`. -/
def readEntries (usedEnd : ℕ) : ℕ → Reader Status (List Row)
  | 0 => return []
  | n + 1 => do
    let off ← Reader.offset
    if off ≥ usedEnd then
      Reader.fail
        ⟨.kInvalidArgument, "RowStore data page ended before all rows were read"⟩
    else
      let row ← deserializeRowEntry
      let rest ← readEntries usedEnd n
      return row :: rest

/-- The rows of a page, after the checks of its header. -/
def decodePage (page : ByteString) : Except Status (List Row) := do
  let header ← deserializeDataPageHeader page
  if header.version ≠ rowStoreVersion then
    .error ⟨.kInvalidArgument, "Unsupported RowStore data page version"⟩
  else if pageHeaderSize + header.usedBytes > page.length then
    .error ⟨.kInvalidArgument, "RowStore data page used bytes exceed page size"⟩
  else
    let usedEnd := pageHeaderSize + header.usedBytes
    let (rows, off) ← readEntries usedEnd header.entryCount page pageHeaderSize
    if off ≠ usedEnd then
      .error ⟨.kInvalidArgument, "RowStore data page has trailing payload bytes"⟩
    else
      return rows

def loadPageRows (pageId : ℕ) : Action (List Row) := do
  let page ← onPages (PageManager.readPage pageId)
  ofExcept (decodePage page)

def encodePage (pageSize : ℕ) (rows : List Row) : Except Status ByteString :=
  let entries := rows.flatMap serializeRowEntry
  let header := serializeDataPageHeader
    { version := rowStoreVersion, entryCount := rows.length, usedBytes := entries.length }
  if header.length + entries.length > pageSize then
    .error ⟨.kInvalidArgument, "Rows do not fit into a single data page"⟩
  else
    .ok (fillPage pageSize (header ++ entries))

def writePageRows (pageId : ℕ) (rows : List Row) : Action Unit := do
  let s ← Fallible.read
  let page ← ofExcept (encodePage s.pageSize rows)
  onPages (PageManager.writePage pageId page)

/-- The metadata page for the current counters. -/
def metadataBytes (s : RowStore) : ByteString :=
  serializeMetadata
    { version := rowStoreVersion, nextRowId := s.nextRowId,
      dataPageCount := s.dataPageCount, activeRowCount := s.activeRowCount }

def writeMetadataPage : Action Unit := do
  let s ← Fallible.read
  if !s.isOpen then
    fail notOpen
  else if s.metadataBytes.length > s.pageSize then
    fail ⟨.kInternalError, "RowStore metadata does not fit into metadata page"⟩
  else
    onPages (PageManager.writePage metadataPageId (fillPage s.pageSize s.metadataBytes))

/-- The loop of `LoadAllRows` over the ordinals from `start` on. -/
def loadPagesFrom (start : ℕ) : ℕ → Action (List Row)
  | 0 => return []
  | n + 1 => do
    let pageRows ← loadPageRows (dataPageIdFromOrdinal start)
    let rest ← loadPagesFrom (start + 1) n
    return pageRows ++ rest

def loadAllRows : Action (List Row) := do
  let s ← Fallible.read
  if !s.isOpen then fail notOpen else loadPagesFrom 0 s.dataPageCount

def rowTooLarge : Status :=
  ⟨.kInvalidArgument, "Serialized row is too large for a data page"⟩

/-- Distribute rows over page batches: a batch is closed when the next row no
longer fits behind `size` bytes of entries. -/
def packRows (pageSize : ℕ) :
    List Row → List (List Row) → List Row → ℕ → Except Status (List (List Row))
  | [], batches, batch, _ => .ok (if batch.isEmpty then batches else batches ++ [batch])
  | row :: rows, batches, batch, size =>
    let entry := serializeRowEntry row
    if pageHeaderSize + entry.length > pageSize then
      .error rowTooLarge
    else if !batch.isEmpty ∧ pageHeaderSize + size + entry.length > pageSize then
      packRows pageSize rows (batches ++ [batch]) [row] entry.length
    else
      packRows pageSize rows batches (batch ++ [row]) (size + entry.length)

/-- Allocate `n` further data pages. -/
def growDataPages : ℕ → Action Unit
  | 0 => return ()
  | n + 1 => do
    let _ ← onPages PageManager.allocatePage
    Fallible.modify fun s => { s with dataPageCount := s.dataPageCount + 1 }
    growDataPages n

/-- Write the batches to the data pages from ordinal `start` on; pages without
a batch are emptied. -/
def writeBatchesFrom (batches : List (List Row)) (start : ℕ) : ℕ → Action Unit
  | 0 => return ()
  | n + 1 => do
    writePageRows (dataPageIdFromOrdinal start) (batches[start]?.getD [])
    writeBatchesFrom batches (start + 1) n

def rewriteAllRows (rows : List Row) : Action Unit := do
  let s ← Fallible.read
  if !s.isOpen then
    fail notOpen
  else
    let batches ← ofExcept (packRows s.pageSize rows [] [] 0)
    growDataPages (batches.length - s.dataPageCount)
    let s ← Fallible.read
    writeBatchesFrom batches 0 s.dataPageCount
    if s.metadataBytes.length > s.pageSize then
      fail metadataTooLarge
    else
      onPages (PageManager.writePage metadataPageId (fillPage s.pageSize s.metadataBytes))

/-- The loop of `FindPageWithFreeSpace`: the first page from ordinal `start` on
with room for the entry. -/
def findPageFrom (entrySize start : ℕ) : ℕ → Action (Option ℕ)
  | 0 => return none
  | n + 1 => do
    let page ← onPages (PageManager.readPage (dataPageIdFromOrdinal start))
    let header ← ofExcept (deserializeDataPageHeader page)
    let s ← Fallible.read
    if pageHeaderSize + header.usedBytes + entrySize ≤ s.pageSize then
      return some (dataPageIdFromOrdinal start)
    else
      findPageFrom entrySize (start + 1) n

def appendDataPage : Action ℕ := do
  let pageId ← onPages PageManager.allocatePage
  Fallible.modify fun s => { s with dataPageCount := s.dataPageCount + 1 }
  writePageRows pageId []
  return pageId

def entryTooLarge : Status := ⟨.kInvalidArgument, "Row entry is too large for a data page"⟩

def findPageWithFreeSpace (entrySize : ℕ) : Action ℕ := do
  let s ← Fallible.read
  if !s.isOpen then
    fail notOpen
  else if pageHeaderSize + entrySize > s.pageSize then
    fail entryTooLarge
  else
    match ← findPageFrom entrySize 0 s.dataPageCount with
    | some pageId => return pageId
    | none => appendDataPage

def rowNotFound : Status := ⟨.kNotFound, "Row not found"⟩

def rowIsDeleted : Status := ⟨.kNotFound, "Row is deleted"⟩

def findRowIndexById (rows : List Row) (rid : ℕ) : Except Status ℕ :=
  match rows.findIdx? (fun row => row.rid = rid) with
  | none => .error rowNotFound
  | some index => .ok index

/-- What `Insert` does once it has chosen a page. -/
def insertAt (pageId : ℕ) (row : Row) : Action ℕ := do
  let pageRows ← loadPageRows pageId
  writePageRows pageId (pageRows ++ [row])
  Fallible.modify fun s =>
    { s with
      nextRowId := (s.nextRowId + 1) % 2 ^ 64
      activeRowCount := (s.activeRowCount + 1) % 2 ^ 64 }
  writeMetadataPage
  return row.rid

/-- `RowStore::Insert`; the row's own id and flag are overwritten. -/
def insert (tuple : Tuple) : Action ℕ := do
  let s ← Fallible.read
  if !s.isOpen then
    fail notOpen
  else
    let row : Row := { rid := s.nextRowId, tuple, deleted := false }
    let pageId ← findPageWithFreeSpace (serializeRowEntry row).length
    insertAt pageId row

def getIncludingDeleted (rid : ℕ) : Action Row := do
  let rows ← loadAllRows
  let index ← ofExcept (findRowIndexById rows rid)
  return rows[index]?.getD { rid := 0, tuple := [], deleted := false }

def get (rid : ℕ) : Action Row := do
  let row ← getIncludingDeleted rid
  if row.deleted then fail rowIsDeleted else return row

def update (rid : ℕ) (tuple : Tuple) : Action Unit := do
  let rows ← loadAllRows
  let index ← ofExcept (findRowIndexById rows rid)
  if rows[index]?.any (·.deleted) then
    fail rowIsDeleted
  else
    rewriteAllRows (rows.modify index fun row => { row with tuple })

def delete (rid : ℕ) : Action Unit := do
  let rows ← loadAllRows
  let index ← ofExcept (findRowIndexById rows rid)
  if rows[index]?.any (·.deleted) then
    return ()
  else
    Fallible.modify fun s => { s with activeRowCount := (s.activeRowCount + 2 ^ 64 - 1) % 2 ^ 64 }
    rewriteAllRows (rows.modify index fun row => { row with deleted := true })

def scan : Action (List Row) := do
  let rows ← loadAllRows
  return rows.filter fun row => !row.deleted

def scanIncludingDeleted : Action (List Row) := loadAllRows

/-- The rows with `row` put back under its own id, and whether this adds a live
row. -/
def restoreInto (rows : List Row) (row : Row) : List Row × Bool :=
  match findRowIndexById rows row.rid with
  | .ok index => (rows.set index { row with deleted := false }, rows[index]?.any (·.deleted))
  | .error _ => (rows ++ [{ row with deleted := false }], true)

def restore (row : Row) : Action Unit := do
  let rows ← loadAllRows
  let (rows, revived) := restoreInto rows row
  Fallible.modify fun s =>
    { s with
      activeRowCount := if revived then (s.activeRowCount + 1) % 2 ^ 64 else s.activeRowCount
      nextRowId := max s.nextRowId ((row.rid + 1) % 2 ^ 64) }
  rewriteAllRows rows

end RowStore

end CourseDb

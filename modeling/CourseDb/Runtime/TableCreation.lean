import CourseDb.Catalog.CatalogFiles
import CourseDb.Runtime.RowCalls

/-! # Creating a table

The catalog enters a table first, and its indexes are created afterwards. Whether
this leaves a table behind when it fails depends on the indexes alone: on the
page size, on the types of their columns and on the files at their paths.
-/

namespace CourseDb

open Fallible (read_bind bind_ok bind_error ofExcept_bind zoom_of_eq)
open BStarTree (nodeHeaderSize computeMinDegreeForPage)
open IndexManager (createIndex validateDescriptor registerIndex maxVariableKeyPayloadBytes)

/-! ## The settings of an index -/

/-- The size of the largest key of an index on a column. -/
def ColumnType.maxKeySize : ColumnType → ℕ
  | kInt => 8
  | kString => maxVariableKeyPayloadBytes
  | kBool => 1

/-- The smallest page on which an inner node has room for three keys. -/
def ColumnType.smallestPage (type : ColumnType) : ℕ :=
  nodeHeaderSize + 8 + 3 * (12 + type.maxKeySize)

def ColumnType.treeSettings (pageSize : ℕ) (type : ColumnType) : BStarTree.Config where
  keyType := type.toValueType
  pageSize
  minDegree := ((pageSize - nodeHeaderSize - 8) / (12 + type.maxKeySize) + 1) / 2
  maxKeyPayloadBytes := type.maxKeySize

namespace IndexManager

variable {pageSize : ℕ} {type : ColumnType}

theorem resolveMaxEncodedKeySize_eq (type : ColumnType) :
    BStarTree.resolveMaxEncodedKeySize type.toValueType maxVariableKeyPayloadBytes =
      .ok type.maxKeySize := by
  cases type <;> rfl

theorem maxKeySize_pos (type : ColumnType) : 0 < type.maxKeySize := by
  cases type <;> decide

theorem entrySize_eq (type : ColumnType) :
    BStarTree.entrySize type.maxKeySize = 12 + type.maxKeySize := by
  cases type <;> rfl

theorem computeMinDegreeForPage_eq (pageSize : ℕ) (type : ColumnType) :
    computeMinDegreeForPage pageSize type.maxKeySize =
      if pageSize ≤ nodeHeaderSize + 8 then
        .error ⟨.kInvalidArgument, "Page size is too small for BStarTree node headers"⟩
      else if pageSize < type.smallestPage then
        .error ⟨.kInvalidArgument, "Page size is too small to support BStarTree min_degree >= 2"⟩
      else .ok (type.treeSettings pageSize).minDegree := by
  have hpos := maxKeySize_pos type
  have hle : (pageSize - nodeHeaderSize - 8) / (12 + type.maxKeySize) ≤
      (pageSize - nodeHeaderSize) / (12 + type.maxKeySize) :=
    Nat.div_le_div_right (Nat.sub_le _ _)
  have hroom : (pageSize - nodeHeaderSize - 8) / (12 + type.maxKeySize) < 3 ↔
      pageSize - nodeHeaderSize - 8 < 3 * (12 + type.maxKeySize) :=
    Nat.div_lt_iff_lt_mul (by omega)
  unfold computeMinDegreeForPage
  simp only [entrySize_eq, Nat.min_eq_right hle, if_neg hpos.ne', hroom]
  unfold ColumnType.smallestPage ColumnType.treeSettings
  split_ifs <;> first | rfl | omega

theorem treeConfig_of_le (h : type.smallestPage ≤ pageSize) :
    treeConfig pageSize type.toValueType = .ok (type.treeSettings pageSize) := by
  have hpos := maxKeySize_pos type
  have hheader : ¬ pageSize ≤ nodeHeaderSize + 8 := by
    unfold ColumnType.smallestPage at h
    omega
  unfold treeConfig
  rw [resolveMaxEncodedKeySize_eq]
  change (computeMinDegreeForPage pageSize type.maxKeySize >>= _) = _
  rw [computeMinDegreeForPage_eq, if_neg hheader, if_neg h.not_gt]
  rfl

theorem treeConfig_of_lt (h : pageSize < type.smallestPage) :
    ∃ status, treeConfig pageSize type.toValueType = .error status := by
  unfold treeConfig
  rw [resolveMaxEncodedKeySize_eq]
  change ∃ status, (computeMinDegreeForPage pageSize type.maxKeySize >>= _) = _
  rw [computeMinDegreeForPage_eq, if_pos h]
  split_ifs
  · exact ⟨_, rfl⟩
  · exact ⟨_, rfl⟩

end IndexManager

/-! ## The file of an index -/

namespace Disk

variable {d d' : Disk} {path path' : ByteString} {cfg cfg' : BStarTree.Config}
  {content : FileContent}

/-- The path is free or leads to an index with these settings. -/
def Suits (d : Disk) (path : ByteString) (cfg : BStarTree.Config) : Prop :=
  ∀ file, d.paths path = some file → ∃ x, d.files file = some (.index x) ∧ x.cfg = cfg

end Disk

namespace StorageNodeEngine

variable {e : StorageNodeEngine} {path : ByteString} {cfg : BStarTree.Config} {d : Disk}

section Indexes

variable {schema : TableSchema} {index index' : IndexDescriptor} {type : ColumnType}
  {indexes : List IndexDescriptor}

def indexType (schema : TableSchema) (index : IndexDescriptor) : Option ColumnType :=
  (schema.findColumnSchema index.columnName).map ColumnSchema.type

/-- An index whose name is open is used as it is. Another one needs pages that are large enough
and a path that is free or leads to an index with its settings. -/
def Fits (e : StorageNodeEngine) (schema : TableSchema) (index : IndexDescriptor) : Prop :=
  e.openedIndexes index.name = none → ∃ type, indexType schema index = some type ∧
    type.smallestPage ≤ e.config.pageSize ∧
    e.disk.Suits index.filePath (type.treeSettings e.config.pageSize)

/-- Indexes that are created in one file have keys of one type. -/
def Agree (e : StorageNodeEngine) (schema : TableSchema) (index index' : IndexDescriptor) : Prop :=
  e.openedIndexes index.name = none → e.openedIndexes index'.name = none →
    index'.filePath = index.filePath → indexType schema index' = indexType schema index

/-- What the catalog has checked about an index before it is created. -/
structure Checked (schema : TableSchema) (index : IndexDescriptor) : Prop where
  valid : validateDescriptor index = .ok ()
  column : (schema.findColumnSchema index.columnName).isSome = true

def enterIndex (e : StorageNodeEngine) (name : ByteString) (file : ℕ) (d : Disk) :
    StorageNodeEngine :=
  { e with disk := d, openedIndexes := Function.update e.openedIndexes name (some file) }

section

variable (hvalid : validateDescriptor index = .ok ())
  (htype : indexType schema index = some type)
include hvalid htype

end

end Indexes

/-! ## What the catalog has checked -/

section Checks

open CatalogManager

variable {desc : TableDescriptor} {schema : TableSchema} {indexes : List IndexDescriptor}
  {seen : List ByteString}

theorem isValidName_of_validateColumns {columns : List ColumnSchema}
    (h : validateColumns seen columns = .ok ()) : ∀ column ∈ columns,
      isValidName column.name = true := by
  induction columns generalizing seen with
  | nil => exact fun _ hmem => absurd hmem List.not_mem_nil
  | cons column columns ih =>
    unfold validateColumns at h
    obtain ⟨⟨⟩, hcolumn, hrest⟩ := except_bind_eq_ok.mp h
    intro column' hmem
    rcases List.mem_cons.mp hmem with rfl | hmem
    · by_contra hname
      rw [validateColumnSchema, if_pos (by simpa using hname)] at hcolumn
      cases hcolumn
    · split_ifs at hrest
      · cases hrest
      · exact ih hrest column' hmem

theorem validateIndexes_ok (h : validateIndexes desc seen indexes = .ok ()) :
    (∀ index ∈ indexes, validateIndexDescriptor index desc.schema desc.tableName = .ok () ∧
      index.name ∉ seen) ∧ (indexes.map IndexDescriptor.name).Nodup := by
  induction indexes generalizing seen with
  | nil => exact ⟨fun _ hmem => absurd hmem List.not_mem_nil, .nil⟩
  | cons index indexes ih =>
    unfold validateIndexes at h
    obtain ⟨⟨⟩, hindex, hrest⟩ := except_bind_eq_ok.mp h
    split_ifs at hrest with hseen
    · cases hrest
    · obtain ⟨hall, hnodup⟩ := ih hrest
      constructor
      · intro index' hmem
        rcases List.mem_cons.mp hmem with rfl | hmem
        · exact ⟨hindex, hseen⟩
        · exact ⟨(hall _ hmem).1, fun hmem' => (hall _ hmem).2 (List.mem_cons_of_mem _ hmem')⟩
      · rw [List.map_cons, List.nodup_cons]
        refine ⟨fun hmem => ?_, hnodup⟩
        obtain ⟨index', hmem', heq⟩ := List.mem_map.mp hmem
        exact (hall index' hmem').2 (heq ▸ List.mem_cons_self)

theorem checked_of_valid (h : validateTableDescriptor desc = .ok ()) :
    (∀ index ∈ desc.indexes, Checked desc.schema index) ∧
      (desc.indexes.map IndexDescriptor.name).Nodup := by
  unfold validateTableDescriptor at h
  obtain ⟨⟨⟩, -, h⟩ := except_bind_eq_ok.mp h
  obtain ⟨⟨⟩, htable, h⟩ := except_bind_eq_ok.mp h
  obtain ⟨⟨⟩, hschema, h⟩ := except_bind_eq_ok.mp h
  obtain ⟨⟨⟩, hindexes, -⟩ := except_bind_eq_ok.mp h
  obtain ⟨hall, hnodup⟩ := validateIndexes_ok hindexes
  have hcolumns : ∀ column ∈ desc.schema, isValidName column.name = true := by
    unfold validateTableSchema at hschema
    split_ifs at hschema
    · cases hschema
    · exact isValidName_of_validateColumns hschema
  refine ⟨fun index hmem => ?_, hnodup⟩
  have hindex := (hall index hmem).1
  unfold validateIndexDescriptor invalid at hindex
  split_ifs at hindex with hname htableName hcolumn hpath
  have hfound : (desc.schema.findColumnSchema index.columnName).isSome = true := by
    obtain ⟨i, hi⟩ := Option.ne_none_iff_exists'.mp hcolumn
    rw [TableSchema.findColumnSchema_eq, hi]
    exact Option.isSome_iff_exists.mpr ⟨_, List.getElem?_eq_getElem (TableSchema.findColumn_lt hi)⟩
  refine ⟨?_, hfound⟩
  obtain ⟨column, hfind⟩ := Option.isSome_iff_exists.mp hfound
  have hcolumnName : column.name = index.columnName := by
    have hsome := List.find?_some hfind
    simpa using hsome
  have hcolumnNe : index.columnName ≠ [] := by
    rw [← hcolumnName]
    exact isValidName_ne_nil (hcolumns column (List.mem_of_find?_eq_some hfind))
  have hnameNe : index.name ≠ [] := isValidName_ne_nil (by simpa using hname)
  have htableNe : index.tableName ≠ [] := by
    rw [not_not.mp htableName]
    exact isValidName_ne_nil (isValidName_of_tableName htable)
  unfold validateDescriptor
  rw [if_neg (by simpa using hnameNe), if_neg (by simpa using htableNe),
    if_neg (by simpa using hcolumnNe), if_neg hpath]

end Checks

/-! ## A failed creation -/

section Creation

open CatalogManager

variable {desc : TableDescriptor}

/-- The descriptor as the catalog keeps it. -/
def normalized (e : StorageNodeEngine) (desc : TableDescriptor) : TableDescriptor :=
  normalizeTableDescriptor e.config.dataDir desc

def metaPath (e : StorageNodeEngine) (desc : TableDescriptor) : ByteString :=
  tableMetaPath e.config.dataDir desc.databaseName desc.tableName

/-- The catalog takes the table. -/
structure Admitted (e : StorageNodeEngine) (desc : TableDescriptor) : Prop where
  started : e.started = true
  database : databaseExists e.config.dataDir desc.databaseName e.disk = true
  valid : validateTableDescriptor (normalized e desc) = .ok ()
  absent : e.disk.hasPath (metaPath e desc) = false
  directory : e.disk.isDir (Disk.parent (metaPath e desc)) = true

def enterDescriptor (e : StorageNodeEngine) (desc : TableDescriptor) : StorageNodeEngine :=
  { e with disk := e.disk.create (metaPath e desc) (.metadata (normalized e desc)) }

theorem createTable_disk (h : Admitted e desc) :
    CatalogManager.createTable e.config.dataDir desc e.disk =
      (.ok (), (enterDescriptor e desc).disk) := by
  rw [createTable_of_admits ⟨h.database, h.valid, h.absent⟩]
  exact congrFun (if_pos h.directory) e.disk

/-- The catalog accepts the names, so that the answer depends on the files alone. -/
theorem findTableMeta_eq (h : Admitted e desc) (d : Disk) :
    findTableMeta e.config.dataDir desc.databaseName desc.tableName d =
      if !databaseExists e.config.dataDir desc.databaseName d then .error databaseNotFound
      else if !d.hasPath (metaPath e desc) then .error tableNotFound
      else .ok (metaPath e desc) := by
  have hnames := names_of_validateTableDescriptor h.valid
  unfold findTableMeta
  rw [show validateDatabaseName desc.databaseName = .ok () from hnames.1,
    show validateTableName desc.tableName = .ok () from hnames.2]
  rfl

theorem getTable_of_entered (h : Admitted e desc) (hext : (enterDescriptor e desc).disk.Extends d)
    (hdir : databaseExists e.config.dataDir desc.databaseName d = true) :
    getTable e.config.dataDir desc.databaseName desc.tableName d = .ok (normalized e desc) := by
  have hpath : d.paths (metaPath e desc) = some e.disk.nextFile :=
    hext.paths FileSystem.create_path_self
  have hfile : d.files e.disk.nextFile = some (.metadata (normalized e desc)) :=
    hext.files FileSystem.create_file_self
  have hfind : findTableMeta e.config.dataDir desc.databaseName desc.tableName d =
      .ok (metaPath e desc) := by
    rw [findTableMeta_eq h, if_neg (by simp [hdir]), if_neg (by simp [FileSystem.hasPath, hpath])]
  have hcontent : d.content (metaPath e desc) = some (.metadata (normalized e desc)) := by
    change d.paths (metaPath e desc) >>= d.files = _
    rw [hpath]
    exact hfile
  rw [getTable_of_find hfind]
  change Disk.readTableMetaFile (metaPath e desc) d = _
  unfold Disk.readTableMetaFile
  rw [hcontent]
  change (validateTableDescriptor (normalized e desc) >>= _) = _
  rw [h.valid]
  rfl

theorem createTable_of_admitted (h : Admitted e desc) :
    createTable desc e =
      ensureTableIndexesCreated (normalized e desc) (enterDescriptor e desc) := by
  have hcatalog : onDisk (CatalogManager.createTable e.config.dataDir desc) e =
      (.ok (), enterDescriptor e desc) := by
    change Fallible.zoom _ _ _ e = _
    rw [zoom_of_eq (createTable_disk h)]
    rfl
  have hload : loadTableDescriptor desc.databaseName desc.tableName (enterDescriptor e desc) =
      (.ok (normalized e desc), enterDescriptor e desc) := by
    have hget := getTable_of_entered h .rfl h.database
    rw [loadTableDescriptor_eq]
    exact congrArg (·, enterDescriptor e desc) hget
  unfold createTable
  rw [bind_ok (ensureStarted_of_started h.started), read_bind, bind_ok hcatalog,
    bind_ok hload]

theorem createTable_of_not_admitted (h : ¬ Admitted e desc) :
    ∃ status, createTable desc e = (.error status, e) := by
  have hstart := ensureStarted_eq e
  by_cases hstarted : e.started = true
  · rw [if_pos hstarted] at hstart
    have hcatalog : ∃ status, CatalogManager.createTable e.config.dataDir desc e.disk =
        (.error status, e.disk) := by
      by_cases hadmits : Admits e.config.dataDir desc e.disk
      · refine ⟨_, (createTable_of_admits hadmits).trans (congrFun (if_neg fun hdir => h ?_) e.disk)⟩
        exact ⟨hstarted, hadmits.database, hadmits.valid, hadmits.absent, hdir⟩
      · exact createTable_of_not_admits hadmits
    obtain ⟨status, hcatalog⟩ := hcatalog
    have hdisk : onDisk (CatalogManager.createTable e.config.dataDir desc) e =
        (.error status, e) := by
      change Fallible.zoom _ _ _ e = _
      rw [zoom_of_eq hcatalog]
    unfold createTable
    rw [bind_ok hstart, read_bind,
      bind_error hdisk]
    exact ⟨status, rfl⟩
  · rw [if_neg hstarted] at hstart
    unfold createTable
    rw [bind_error hstart]
    exact ⟨_, rfl⟩

end Creation

end StorageNodeEngine

end CourseDb

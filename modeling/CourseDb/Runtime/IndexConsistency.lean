import CourseDb.Runtime.TableCreation
import CourseDb.Runtime.TableHost

/-! # Tables and their indexes

If nothing of a table was there before, its creation gives the table without
rows, keys and records. As long as all calls on it succeed, each of its indexes
leads from the values of the rows in its column to the rows, and nowhere else.
-/

namespace CourseDb

open Fallible (read_bind bind_ok bind_eq_ok)

/-- The settings of the index with a name. -/
def TableDescriptor.keySettings (desc : TableDescriptor) (pageSize : ℕ) (name : ByteString) :
    BStarTree.Config :=
  (((desc.indexes.find? (·.name = name)).bind (StorageNodeEngine.indexType desc.schema)).getD
    .kInt).treeSettings pageSize

def TableState.fresh (desc : TableDescriptor) (pageSize : ℕ) (clock : ℕ → ℤ) : TableState where
  heap := Heap.empty pageSize
  indexes name := KeyIndex.empty (desc.keySettings pageSize name)
  records := []
  clock

namespace TableState

variable {desc : TableDescriptor}

theorem fresh_consistent {pageSize : ℕ} (hmin : 36 ≤ pageSize) (hmax : pageSize < 2 ^ 32)
    (clock : ℕ → ℤ) : Consistent desc (fresh desc pageSize clock) where
  numbered := Heap.empty_numbered hmin hmax
  stored ht := by cases ht
  keyed index _ := ⟨Indexes.empty, fun hkey => by cases hkey⟩

/-- The catalog accepts only descriptors whose indexes can be kept. -/
theorem regular_of_valid (h : CatalogManager.validateTableDescriptor desc = .ok ()) :
    Regular desc := by
  obtain ⟨hchecked, hnames⟩ := StorageNodeEngine.checked_of_valid h
  refine ⟨hnames, fun index hmem => ?_⟩
  have hcolumn := (hchecked index hmem).column
  rw [TableSchema.findColumnSchema_eq] at hcolumn
  rcases hfind : desc.schema.findColumn index.columnName with _ | i
  · rw [hfind] at hcolumn
    cases hcolumn
  · rfl

end TableState

namespace StorageNodeEngine

variable {e e' e₀ : StorageNodeEngine} {desc : TableDescriptor} {index : IndexDescriptor}
  {schema : TableSchema} {type : ColumnType}

/-! ## Indexes that are created -/

/-- The file of an index that has just been created, and what opening it left alone. -/
structure Creates (index : IndexDescriptor) (cfg : BStarTree.Config) (e e' : StorageNodeEngine) :
    Prop where
  opened : ∃ file, e'.openedIndexes index.name = some file ∧
    e'.disk.paths index.filePath = some file ∧
    e'.disk.files file = some (.index (KeyIndex.empty cfg))
  paths_eq : ∀ path, path ≠ index.filePath → e'.disk.paths path = e.disk.paths path
  names_eq : ∀ name, name ≠ index.name → e'.openedIndexes name = e.openedIndexes name
  tables_eq : e'.openedTables = e.openedTables
  logs_eq : e'.openedVersionLogs = e.openedVersionLogs
  dirs : ∀ dir, e.disk.isDir dir = true → e'.disk.isDir dir = true

theorem ensureParentDir_isDir (path dir : ByteString) (h : e.disk.isDir dir = true) :
    (ensureParentDir path e).2.disk.isDir dir = true := by
  unfold ensureParentDir
  split_ifs
  · exact h
  · exact (Bool.or_eq_true _ _).mpr (.inl h)

theorem createIndex_creates (hname : e.openedIndexes index.name = none)
    (hpath : e.disk.paths index.filePath = none)
    (h : IndexManager.createIndex index type.toValueType e = (.ok (), e')) :
    Creates index (type.treeSettings e.config.pageSize) e e' := by
  unfold IndexManager.createIndex IndexManager.registerIndex at h
  obtain ⟨⟨⟩, e₁, hcheck, h⟩ := bind_eq_ok.mp h
  obtain ⟨-, rfl⟩ := Prod.mk.inj hcheck
  rw [read_bind, hname, if_neg (by simp), if_neg (by simp)] at h
  obtain ⟨cfg, e₂, hread, h⟩ := bind_eq_ok.mp h
  obtain ⟨hcfg, rfl⟩ := Prod.mk.inj hread
  obtain ⟨file, e₃, hopen, h⟩ := bind_eq_ok.mp h
  have hcfg' : cfg = type.treeSettings e.config.pageSize := by
    by_cases hpage : type.smallestPage ≤ e.config.pageSize
    · rw [IndexManager.treeConfig_of_le hpage] at hcfg
      exact (Except.ok.inj hcfg).symm
    · obtain ⟨status, hconfig⟩ := IndexManager.treeConfig_of_lt (Nat.lt_of_not_le hpage)
      rw [hconfig] at hcfg
      cases hcfg
  obtain ⟨d, hdir, -, hpaths, -⟩ := ensureParentDir_eq index.filePath e
  unfold openIndexFile at hopen
  rw [read_bind, bind_ok hdir, hpath] at hopen
  cases hopen
  cases h
  refine ⟨⟨_, Function.update_self _ _ _, FileSystem.create_path_self, ?_⟩, ?_, ?_, rfl, rfl, ?_⟩
  · rw [← hcfg']
    exact FileSystem.create_file_self
  · intro path hne
    exact (FileSystem.create_path_of_ne hne).trans (congrFun hpaths path)
  · intro name hne
    exact Function.update_of_ne hne _ _
  · intro dir hisDir
    have hkept := ensureParentDir_isDir index.filePath dir hisDir
    rw [hdir] at hkept
    exact hkept

/-- The indexes that have just been created, and what opening them left alone. -/
structure CreatesAll (schema : TableSchema) (indexes : List IndexDescriptor)
    (e e' : StorageNodeEngine) : Prop where
  opened : ∀ index ∈ indexes, ∃ type file, indexType schema index = some type ∧
    e'.openedIndexes index.name = some file ∧ e'.disk.paths index.filePath = some file ∧
    e'.disk.files file = some (.index (KeyIndex.empty (type.treeSettings e.config.pageSize)))
  paths_eq : ∀ path, path ∉ indexes.map IndexDescriptor.filePath →
    e'.disk.paths path = e.disk.paths path
  tables_eq : e'.openedTables = e.openedTables
  logs_eq : e'.openedVersionLogs = e.openedVersionLogs
  dirs : ∀ dir, e.disk.isDir dir = true → e'.disk.isDir dir = true

/-- All indexes are created, each with a file of its own. -/
theorem registerIndexes_creates {indexes : List IndexDescriptor}
    (hnames : (indexes.map IndexDescriptor.name).Nodup)
    (hpaths : (indexes.map IndexDescriptor.filePath).Nodup)
    (hclosed : ∀ index ∈ indexes, e.openedIndexes index.name = none)
    (hfree : ∀ index ∈ indexes, e.disk.paths index.filePath = none)
    (h : registerIndexes schema IndexManager.createIndex indexes e = (.ok (), e')) :
    CreatesAll schema indexes e e' := by
  induction indexes generalizing e with
  | nil =>
    cases h
    exact ⟨fun _ hmem => absurd hmem List.not_mem_nil, fun _ _ => rfl, rfl, rfl, fun _ => id⟩
  | cons index indexes ih =>
    rw [List.map_cons, List.nodup_cons] at hnames hpaths
    obtain ⟨hname, hclosed⟩ := List.forall_mem_cons.mp hclosed
    obtain ⟨hpath, hfree⟩ := List.forall_mem_cons.mp hfree
    unfold registerIndexes at h
    rcases hcolumn : schema.findColumnSchema index.columnName with _ | column
    · rw [hcolumn] at h
      cases h
    · rw [hcolumn] at h
      obtain ⟨⟨⟩, e₁, hfirst, hrest⟩ := bind_eq_ok.mp h
      have hcreates := createIndex_creates hname hpath hfirst
      have hopens := (registerIndexes_opens createIndex_opens schema indexes).of_eq hrest
      have hclosed₁ : ∀ index' ∈ indexes, e₁.openedIndexes index'.name = none := by
        intro index' hmem
        have hne : index'.name ≠ index.name := fun heq =>
          hnames.1 (heq ▸ List.mem_map_of_mem hmem)
        rw [hcreates.names_eq _ hne, hclosed index' hmem]
      have hfree₁ : ∀ index' ∈ indexes, e₁.disk.paths index'.filePath = none := by
        intro index' hmem
        have hne : index'.filePath ≠ index.filePath := fun heq =>
          hpaths.1 (heq ▸ List.mem_map_of_mem hmem)
        rw [hcreates.paths_eq _ hne, hfree index' hmem]
      have hrestAll := ih hnames.2 hpaths.2 hclosed₁ hfree₁ hrest
      have hconfig : e₁.config = e.config := by
        have hfirstOpens := (createIndex_opens index column.type.toValueType).of_eq hfirst
        exact hfirstOpens.config_eq
      constructor
      · rw [← hconfig]
        refine List.forall_mem_cons.mpr ⟨?_, hrestAll.opened⟩
        obtain ⟨file, hopened, hpath', hfile⟩ := hcreates.opened
        rw [← hconfig] at hfile
        refine ⟨column.type, file, ?_, hopens.indexes hopened, hopens.disk.paths hpath',
          hopens.disk.files hfile⟩
        rw [indexType, hcolumn]
        rfl
      · intro path hmem
        rw [List.map_cons, List.mem_cons, not_or] at hmem
        rw [hrestAll.paths_eq path hmem.2, hcreates.paths_eq path hmem.1]
      · rw [hrestAll.tables_eq, hcreates.tables_eq]
      · rw [hrestAll.logs_eq, hcreates.logs_eq]
      · intro dir hdir
        exact hrestAll.dirs dir (hcreates.dirs dir hdir)

/-! ## The whole table -/

section Creation

open CatalogManager

/-- The files of a table, without that of its descriptor. -/
def tableFiles (e : StorageNodeEngine) (desc : TableDescriptor) : List ByteString :=
  (normalized e desc).dataFile :: resolveVersionLogPath e.config desc ::
    (normalized e desc).indexes.map IndexDescriptor.filePath

/-- Nothing of a table is there: none of its files, and nothing that is open under its names. -/
structure Unused (e : StorageNodeEngine) (desc : TableDescriptor) : Prop where
  table : e.openedTables (makeTableCacheKey desc.databaseName desc.tableName) = none
  log : e.openedVersionLogs (makeVersionLogCacheKey desc.databaseName desc.tableName) = none
  indexes : ∀ index ∈ desc.indexes, e.openedIndexes index.name = none
  files : ∀ path ∈ tableFiles e desc, e.disk.paths path = none

def SeparateFiles (e : StorageNodeEngine) (desc : TableDescriptor) : Prop :=
  (metaPath e desc :: tableFiles e desc).Nodup

/-- `e'` is `e` after the creation of a table of which nothing was there. A row store needs
pages of at least 36 bytes. -/
structure NewTable (e : StorageNodeEngine) (desc : TableDescriptor) (e' : StorageNodeEngine) :
    Prop extends Unused e desc where
  created : createTable desc e = (.ok (), e')
  separate : SeparateFiles e desc
  pageSize : 36 ≤ e.config.pageSize

theorem NewTable.admitted (h : NewTable e desc e') : Admitted e desc := by
  by_contra hnot
  obtain ⟨status, hcreate⟩ := createTable_of_not_admitted hnot
  have hok := h.created
  rw [hcreate] at hok
  cases hok

/-- The indexes are created in an engine that knows the table. -/
theorem NewTable.registered (h : NewTable e desc e') :
    ∃ d, registerIndexes desc.schema IndexManager.createIndex (normalized e desc).indexes
        { e with disk := d } = (.ok (), e') ∧
      (enterDescriptor e desc).disk.Extends d ∧ d.paths = (enterDescriptor e desc).disk.paths ∧
      databaseExists e.config.dataDir desc.databaseName d = true := by
  have hcreated := h.created
  rw [createTable_of_admitted h.admitted] at hcreated
  unfold ensureTableIndexesCreated at hcreated
  split_ifs at hcreated with hempty
  · have hnil : (normalized e desc).indexes = [] := by simpa using hempty
    rw [hnil]
    exact ⟨_, hcreated, .rfl, rfl, h.admitted.database⟩
  · obtain ⟨⟨⟩, e₁, hdir, hregister⟩ := bind_eq_ok.mp hcreated
    cases hdir
    refine ⟨_, hregister, .ensureDir _ _, rfl, ?_⟩
    exact (Bool.or_eq_true _ _).mpr (.inl h.admitted.database)

section Normalized

variable (e : StorageNodeEngine) (desc : TableDescriptor)

theorem normalized_names :
    (normalized e desc).indexes.map IndexDescriptor.name = desc.indexes.map IndexDescriptor.name := by
  change (desc.indexes.map _).map _ = _
  rw [List.map_map]
  rfl

variable {desc} in
theorem mem_normalized (hmem : index ∈ desc.indexes) :
    ∃ index' ∈ (normalized e desc).indexes, index'.name = index.name ∧
      ∀ tuple, extractIndexKey (normalized e desc) index' tuple =
        extractIndexKey desc index tuple :=
  ⟨_, List.mem_map_of_mem hmem, rfl, fun _ => rfl⟩

theorem resolveVersionLogPath_normalized :
    resolveVersionLogPath e.config (normalized e desc) = resolveVersionLogPath e.config desc := rfl

end Normalized

structure Created (e : StorageNodeEngine) (desc : TableDescriptor) (e' : StorageNodeEngine) :
    Prop where
  started : e'.started = true
  config_eq : e'.config = e.config
  clock_eq : e'.clock = e.clock
  table : e'.openedTables (makeTableCacheKey desc.databaseName desc.tableName) = none
  log : e'.openedVersionLogs (makeVersionLogCacheKey desc.databaseName desc.tableName) = none
  descriptor : getTable e.config.dataDir desc.databaseName desc.tableName e'.disk =
    .ok (normalized e desc)
  database : databaseExists e.config.dataDir desc.databaseName e'.disk = true
  dataFile : e'.disk.paths (normalized e desc).dataFile = none
  logFile : e'.disk.paths (resolveVersionLogPath e.config desc) = none
  indexes : ∀ index ∈ (normalized e desc).indexes, ∃ type file,
    indexType desc.schema index = some type ∧ e'.openedIndexes index.name = some file ∧
    e'.disk.paths index.filePath = some file ∧
    e'.disk.files file = some (.index (KeyIndex.empty (type.treeSettings e.config.pageSize)))

theorem NewTable.created_spec (h : NewTable e desc e') : Created e desc e' := by
  obtain ⟨d, hregister, hext, hpaths, hdatabase⟩ := h.registered
  have hopens := registerIndexes_opens createIndex_opens desc.schema (normalized e desc).indexes
    { e with disk := d }
  rw [hregister] at hopens
  obtain ⟨-, hnames⟩ := checked_of_valid h.admitted.valid
  obtain ⟨hmeta, hseparate⟩ := List.nodup_cons.mp h.separate
  obtain ⟨hdata, hseparate⟩ := List.nodup_cons.mp hseparate
  obtain ⟨hlog, hindexPaths⟩ := List.nodup_cons.mp hseparate
  have hfree : ∀ path ∈ tableFiles e desc, d.paths path = none := by
    intro path hmem
    have hne : path ≠ metaPath e desc := fun heq => hmeta (heq ▸ hmem)
    rw [hpaths]
    exact (FileSystem.create_path_of_ne hne).trans (h.files path hmem)
  have hclosed : ∀ index ∈ (normalized e desc).indexes, e.openedIndexes index.name = none := by
    intro index hmem
    have hname := List.mem_map_of_mem (f := IndexDescriptor.name) hmem
    rw [normalized_names] at hname
    obtain ⟨index', hmem', heq⟩ := List.mem_map.mp hname
    rw [← heq, h.indexes index' hmem']
  have hindexes : ∀ index ∈ (normalized e desc).indexes, d.paths index.filePath = none :=
    fun index hmem => hfree _ (List.mem_cons_of_mem _ (List.mem_cons_of_mem _
      (List.mem_map_of_mem hmem)))
  have hall : CreatesAll desc.schema (normalized e desc).indexes { e with disk := d } e' :=
    registerIndexes_creates hnames hindexPaths hclosed hindexes hregister
  constructor
  · exact hopens.started_eq.trans h.admitted.started
  · exact hopens.config_eq
  · exact hopens.clock_eq
  · rw [hall.tables_eq]
    exact h.table
  · rw [hall.logs_eq]
    exact h.log
  · exact getTable_of_entered h.admitted (hext.trans hopens.disk) (hall.dirs _ hdatabase)
  · exact hall.dirs _ hdatabase
  · rw [hall.paths_eq _ fun hmem => hdata (List.mem_cons_of_mem _ hmem)]
    exact hfree _ List.mem_cons_self
  · rw [hall.paths_eq _ hlog]
    exact hfree _ (List.mem_cons_of_mem _ List.mem_cons_self)
  · exact hall.opened

theorem dataFile_of_valid (h : validateTableDescriptor desc = .ok ()) :
    desc.dataFile.isEmpty = false := by
  unfold validateTableDescriptor at h
  obtain ⟨⟨⟩, -, h⟩ := except_bind_eq_ok.mp h
  obtain ⟨⟨⟩, -, h⟩ := except_bind_eq_ok.mp h
  obtain ⟨⟨⟩, -, h⟩ := except_bind_eq_ok.mp h
  obtain ⟨⟨⟩, -, h⟩ := except_bind_eq_ok.mp h
  unfold invalid at h
  split_ifs at h with hdata
  simpa using hdata

/-- The data file is created when the table is opened for the first time. -/
theorem NewTable.openTable_eq (h : NewTable e desc e') :
    ∃ d : Disk, openTable desc.databaseName desc.tableName e' =
        (.ok ⟨normalized e desc, d.nextFile⟩,
          { e' with
            disk := d.create (normalized e desc).dataFile (.table (Heap.empty e.config.pageSize))
            openedTables := Function.update e'.openedTables
              (makeTableCacheKey desc.databaseName desc.tableName)
              (some ⟨normalized e desc, d.nextFile⟩) }) ∧
      d.paths = e'.disk.paths ∧ e'.disk.Extends d ∧
      databaseExists e.config.dataDir desc.databaseName d = true := by
  have hc := h.created_spec
  have hload := loadTableDescriptor_eq desc.databaseName desc.tableName e'
  rw [hc.config_eq, hc.descriptor] at hload
  obtain ⟨d, hdir, hext, hpaths, -⟩ := ensureParentDir_eq (normalized e desc).dataFile e'
  have hdata := dataFile_of_valid h.admitted.valid
  have hpage := h.pageSize
  have hfile : openTableFile (normalized e desc).dataFile e' = (.ok d.nextFile,
      { e' with
        disk := d.create (normalized e desc).dataFile (.table (Heap.empty e.config.pageSize)) }) := by
    unfold openTableFile
    rw [read_bind, hc.config_eq, if_neg (by simp [hdata]),
      if_neg (by omega), bind_ok hdir, hc.dataFile]
    dsimp only
    unfold createTableFile
    rw [read_bind]
    rw [hc.config_eq, if_neg (by omega)]
    rfl
  refine ⟨d, ?_, hpaths, hext, ?_⟩
  · unfold openTable
    rw [read_bind, hc.table]
    dsimp only
    rw [bind_ok hload, bind_ok hfile]
    rfl
  · have hkept := ensureParentDir_isDir (normalized e desc).dataFile _ hc.database
    rw [hdir] at hkept
    exact hkept

theorem getTable_of_extends {d d' : Disk} {rootDir db tbl : ByteString}
    (h : getTable rootDir db tbl d = .ok desc) (hext : d.Extends d')
    (hdatabase : databaseExists rootDir db d' = true) :
    getTable rootDir db tbl d' = .ok desc := by
  obtain ⟨hfind, hread⟩ := getTable_ok.mp h
  obtain ⟨hdb, htable, -, hpath, -⟩ := findTableMeta_ok.mp hfind
  obtain ⟨i, hi⟩ := Option.isSome_iff_exists.mp hpath
  refine getTable_ok.mpr ⟨findTableMeta_ok.mpr ⟨hdb, htable, hdatabase,
    Option.isSome_of_eq_some (hext.paths hi), rfl⟩, ?_⟩
  change Disk.readTableMetaFile _ _ = _ at hread ⊢
  unfold Disk.readTableMetaFile FileSystem.content at hread ⊢
  rw [hi, Option.bind_eq_bind, Option.bind_some] at hread
  rw [hext.paths hi, Option.bind_eq_bind, Option.bind_some]
  rcases hcontent : d.files i with _ | content
  · rw [hcontent] at hread
    cases hread
  · rw [hext.files hcontent]
    rw [hcontent] at hread
    exact hread

theorem keySettings_of_mem (hnames : (desc.indexes.map IndexDescriptor.name).Nodup)
    (hmem : index ∈ desc.indexes) (htype : indexType desc.schema index = some type) (pageSize : ℕ) :
    desc.keySettings pageSize index.name = type.treeSettings pageSize := by
  have hfind : desc.indexes.find? (·.name = index.name) = some index := by
    rcases hfind : desc.indexes.find? (·.name = index.name) with _ | index'
    · have hno := List.find?_eq_none.mp hfind index hmem
      simp at hno
    · have hname : index'.name = index.name := by simpa using List.find?_some hfind
      exact hfind.trans <| congrArg some
        (List.inj_on_of_nodup_map hnames (List.mem_of_find?_eq_some hfind) hmem hname)
  rw [TableDescriptor.keySettings, hfind, Option.bind_some, htype]
  rfl

/-- Once it is open, the engine hosts the table without rows, keys and records. -/
theorem NewTable.hosts (h : NewTable e desc e') :
    ∃ file e₁, openTable desc.databaseName desc.tableName e' =
        (.ok ⟨normalized e desc, file⟩, e₁) ∧
      Hosts desc.databaseName desc.tableName ⟨normalized e desc, file⟩ e₁
        (.fresh (normalized e desc) e.config.pageSize e.clock) := by
  have hc := h.created_spec
  obtain ⟨d, hopen, hpaths, hext, hdatabase⟩ := h.openTable_eq
  have hopens := (openTable_opens desc.databaseName desc.tableName).of_eq hopen
  obtain ⟨hchecked, hnames⟩ := checked_of_valid h.admitted.valid
  obtain ⟨-, hseparate⟩ := List.nodup_cons.mp h.separate
  obtain ⟨hdata, hseparate⟩ := List.nodup_cons.mp hseparate
  obtain ⟨hlog, hindexPaths⟩ := List.nodup_cons.mp hseparate
  refine ⟨d.nextFile, _, hopen, ?_, FileSystem.create_file_self, ?_, ?_, ?_, hc.clock_eq⟩
  · refine ⟨hc.started, Function.update_self _ _ _, fun index hmem => ?_⟩
    obtain ⟨type, file, -, hopened, -⟩ := hc.indexes index hmem
    refine ⟨(hchecked index hmem).valid, (hchecked index hmem).column, ?_⟩
    exact Option.isSome_iff_exists.mpr ⟨file, hopened⟩
  · intro index hmem
    obtain ⟨type, file, htype, hopened, -, hfile⟩ := hc.indexes index hmem
    have hcfg := keySettings_of_mem hnames hmem htype e.config.pageSize
    rw [← hcfg] at hfile
    exact ⟨file, hopened, hopens.disk.files hfile⟩
  · intro index hmem index' hmem' heq
    obtain ⟨-, file, -, hopened, hpath, -⟩ := hc.indexes index hmem
    obtain ⟨-, file', -, hopened', hpath', -⟩ := hc.indexes index' hmem'
    have hfile : file = file' := Option.some.inj (hopened.symm.trans (heq.trans hopened'))
    rw [← hfile] at hpath'
    have hsame : index.filePath = index'.filePath := e'.disk.injective hpath hpath'
    rw [List.inj_on_of_nodup_map hindexPaths hmem hmem' hsame]
  · have hne : resolveVersionLogPath e.config desc ≠ (normalized e desc).dataFile := fun heq =>
      hdata (heq ▸ List.mem_cons_self)
    refine .inr ⟨hc.log, rfl, normalized e desc, ?_, ?_⟩
    · have hget := getTable_of_extends hc.descriptor hopens.disk hdatabase
      rw [hc.config_eq]
      exact hget
    · rw [hc.config_eq, resolveVersionLogPath_normalized, FileSystem.create_path_of_ne hne, hpaths,
        hc.logFile]

theorem NewTable.shows (h : NewTable e desc e') :
    Shows desc.databaseName desc.tableName (normalized e desc) e'
      (.fresh (normalized e desc) e.config.pageSize e.clock) := by
  have hc := h.created_spec
  obtain ⟨-, hnames⟩ := checked_of_valid h.admitted.valid
  obtain ⟨file, e₁, hopen, hhosts⟩ := h.hosts
  refine ⟨hc.started, ⟨file, e₁, hopen, hhosts⟩, fun index hmem => ?_⟩
  obtain ⟨type, file, htype, hopened, -, hfile⟩ := hc.indexes index hmem
  have hcfg := keySettings_of_mem hnames hmem htype e.config.pageSize
  rw [← hcfg] at hfile
  exact ⟨file, hopened, hfile⟩

theorem NewTable.regular (h : NewTable e desc e') : TableState.Regular (normalized e desc) :=
  TableState.regular_of_valid h.admitted.valid

theorem NewTable.consistent (h : NewTable e desc e') :
    TableState.Consistent (normalized e desc)
      (.fresh (normalized e desc) e.config.pageSize e.clock) :=
  TableState.fresh_consistent h.pageSize e.config.pageSize_lt e.clock

end Creation

/-- A table of names with an index on their numbers. -/
def people : TableDescriptor where
  databaseName := ascii "d"
  tableName := ascii "t"
  dataFile := []
  indexDir := []
  schema := [{ name := ascii "id" }, { name := ascii "name", type := .kString }]
  indexes := [{ name := ascii "t_id_idx", tableName := ascii "t", columnName := ascii "id",
                filePath := [] }]

/-- An engine with a database, and a clock that runs. -/
def withDatabase : StorageNodeEngine :=
  Prod.snd <| (show Action Unit from do
    start
    createDatabase (ascii "d")) (.new {} .empty fun n => n + 1)

def withPeople : StorageNodeEngine := (createTable people withDatabase).2

def insertPerson (id : Int64) (name : String) : TableCall :=
  .row (.insert [.int id, .string (ascii name)])

def renamePerson (rid : ℕ) (id : Int64) (name : String) : TableCall :=
  .row (.update rid [.int id, .string (ascii name)])

theorem newTable_people : NewTable withDatabase people withPeople where
  table := by decide +kernel
  log := by decide +kernel
  indexes := by decide +kernel
  files := by decide +kernel
  created := Prod.ext (by decide +kernel) rfl
  separate := by
    unfold SeparateFiles
    decide +kernel
  pageSize := by decide +kernel

theorem clock_withDatabase : Monotone withDatabase.clock := by
  intro i j hij
  change (i : ℤ) + 1 ≤ j + 1
  omega

end StorageNodeEngine

open Fallible (read_bind)

namespace TableState

open StorageNodeEngine (extractIndexKey)

variable {desc : TableDescriptor} {s : TableState} {index : IndexDescriptor} {key : Value}
  {rid : ℕ} {row row' : Row} {tuple : Tuple}

theorem keyOf_eq_some :
    keyOf desc index tuple = some key ↔
      key.isNull = false ∧ extractIndexKey desc index tuple = .ok key := by
  unfold keyOf
  rcases extractIndexKey desc index tuple with status | value
  · simp
  · dsimp only
    split_ifs with hnull
    · constructor
      · intro h
        cases h
      · rintro ⟨hkey, heq⟩
        cases heq
        rw [hnull] at hkey
        cases hkey
    · constructor
      · intro h
        cases h
        exact ⟨Bool.eq_false_of_not_eq_true hnull, rfl⟩
      · rintro ⟨-, heq⟩
        cases heq
        rfl

namespace Consistent

theorem scanTable_eq (hc : Consistent desc s) :
    scanTable s = (.ok (Heap.live s.heap.rows), s) := by
  unfold scanTable onHeap
  rw [show TableStorage.scan s.heap = _ from Heap.scan_spec hc.numbered.toSound]
  rfl

/-- A key is found exactly if it is the value of a row. -/
theorem find_iff (hc : Consistent desc s) (hmem : index ∈ desc.indexes) :
    (KeyIndex.find key (s.indexes index.name)).1 = .ok (some rid) ↔
      key.isNull = false ∧ ∃ row ∈ Heap.live s.heap.rows, row.rid = rid ∧
        extractIndexKey desc index row.tuple = .ok key := by
  have hkeyed := hc.keyed index hmem
  have hfind : (KeyIndex.find key (s.indexes index.name)).1 = .ok (some rid) ↔
      (s.indexes index.name).keys key = some rid := by
    unfold KeyIndex.find
    rw [read_bind]
    constructor
    · intro h
      rcases hvalid : KeyIndex.validateKeyType (s.indexes index.name).cfg key with status | ⟨⟩
      · rw [hvalid] at h
        cases h
      · rw [hvalid] at h
        exact Except.ok.inj h
    · intro h
      rw [hkeyed.accepted h]
      exact congrArg Except.ok h
  rw [hfind, hkeyed.indexes key rid]
  constructor
  · rintro ⟨t, ht, hkey⟩
    obtain ⟨hnull, hextract⟩ := keyOf_eq_some.mp hkey
    have hlive : (⟨rid, t, false⟩ : Row) ∈ Heap.live s.heap.rows :=
      hc.numbered.mem_live.mpr ⟨rfl, ht⟩
    exact ⟨hnull, _, hlive, rfl, hextract⟩
  · rintro ⟨hnull, row, hlive, rfl, hextract⟩
    exact ⟨row.tuple, (hc.numbered.mem_live.mp hlive).2, keyOf_eq_some.mpr ⟨hnull, hextract⟩⟩

theorem row_unique (hc : Consistent desc s) (hmem : index ∈ desc.indexes)
    (hrow : row ∈ Heap.live s.heap.rows) (hrow' : row' ∈ Heap.live s.heap.rows)
    (hnull : key.isNull = false) (hkey : extractIndexKey desc index row.tuple = .ok key)
    (hkey' : extractIndexKey desc index row'.tuple = .ok key) : row = row' := by
  obtain ⟨hlive, ht⟩ := hc.numbered.mem_live.mp hrow
  obtain ⟨hlive', ht'⟩ := hc.numbered.mem_live.mp hrow'
  have hrid : row.rid = row'.rid := (hc.keyed index hmem).indexes.id_unique ht ht'
    (keyOf_eq_some.mpr ⟨hnull, hkey⟩) (keyOf_eq_some.mpr ⟨hnull, hkey'⟩)
  rw [hrid] at ht
  have htuple : row.tuple = row'.tuple := Option.some.inj (ht.symm.trans ht')
  cases row
  cases row'
  simp_all

end Consistent

end TableState

namespace StorageNodeEngine

variable {e e' : StorageNodeEngine} {desc : TableDescriptor}

def AllSucceed (dbName tableName : ByteString) : StorageNodeEngine → List TableCall → Prop :=
  Along (tableStep dbName tableName) fun e call => (call.run dbName tableName e).1 = .ok ()

/-- The index leads from every value but NULL to the row of the scan that has it in the indexed
column, and no two rows have the same value there. -/
structure LeadsToRows (desc : TableDescriptor) (index : IndexDescriptor) (rows : List Row)
    (e : StorageNodeEngine) : Prop where
  find_iff : ∀ key rid, (IndexManager.find index.name key e).1 = .ok (some rid) ↔
    key.isNull = false ∧ ∃ row ∈ rows, row.rid = rid ∧
      extractIndexKey desc index row.tuple = .ok key
  unique : ∀ row ∈ rows, ∀ row' ∈ rows, ∀ key, key.isNull = false →
    extractIndexKey desc index row.tuple = .ok key →
    extractIndexKey desc index row'.tuple = .ok key → row = row'

/-- The table by itself makes the same calls succeed. -/
theorem AllSucceed.along {db tbl : ByteString} {desc : TableDescriptor}
    {s : TableState} {calls : List TableCall} (h : AllSucceed db tbl e calls)
    (hshows : Shows db tbl desc e s) :
    Along (TableState.step desc tbl)
      (fun s call => (TableState.perform desc tbl call s).1 = .ok ()) s calls := by
  refine (tableStep_follows.along (fun e s call hst => ?_) calls hshows).mp h
  rw [(Shows.run_tracks call e s hst).1]

/-- After calls that all succeed, every index leads to the rows of the table. -/
theorem indexes_lead_to_rows (h : NewTable e desc e') (calls : List TableCall)
    (hok : AllSucceed desc.databaseName desc.tableName e' calls) :
    ∃ rows, (scanTable desc.databaseName desc.tableName
        (finalState (stepOn desc) e' calls)).1 = .ok rows ∧
      ∀ index ∈ desc.indexes, LeadsToRows desc index rows
        (finalState (stepOn desc) e' calls) := by
  have hfinal := tableStep_follows.finalState calls h.shows
  -- successful calls keep the table by itself consistent
  have hknown : TableState.Known (normalized e desc)
      (finalState (TableState.step (normalized e desc) desc.tableName)
        (.fresh (normalized e desc) e.config.pageSize e.clock) calls) := by
    refine Along.invariant (fun s call hk hcall => ?_) ?_ (hok.along h.shows)
    · exact TableState.perform_ok h.regular hk (Prod.ext hcall rfl)
    · exact ⟨h.consistent, fun _ hmem => absurd hmem List.not_mem_nil⟩
  have hc := hknown.consistent
  refine ⟨_, (Shows.scanTable_tracks _ _ hfinal).1.trans (by rw [hc.scanTable_eq]), ?_⟩
  intro index hmem
  obtain ⟨index', hmem', hname, hextract⟩ := mem_normalized e hmem
  constructor
  · intro key rid
    rw [← hname, hfinal.find_eq hmem' key, hc.find_iff hmem']
    simp only [hextract]
  · intro row hrow row' hrow' key hnull hkey hkey'
    rw [← hextract] at hkey hkey'
    exact hc.row_unique hmem' hrow hrow' hnull hkey hkey'

/-- In every history the engine answers the calls on a new table as the table by itself does,
and so do a scan of it and its indexes afterwards. -/
theorem new_table_behaves_alone (h : NewTable e desc e') (calls : List TableCall) :
    trace (stepOn desc) e' calls =
        trace (TableState.step (normalized e desc) desc.tableName)
          (.fresh (normalized e desc) e.config.pageSize e.clock) calls ∧
      (scanTable desc.databaseName desc.tableName (finalState (stepOn desc) e' calls)).1 =
        (TableState.scanTable (finalState (TableState.step (normalized e desc) desc.tableName)
          (.fresh (normalized e desc) e.config.pageSize e.clock) calls)).1 ∧
      ∀ index ∈ desc.indexes, ∀ key,
        (IndexManager.find index.name key (finalState (stepOn desc) e' calls)).1 =
          (KeyIndex.find key ((finalState (TableState.step (normalized e desc) desc.tableName)
            (.fresh (normalized e desc) e.config.pageSize e.clock) calls).indexes index.name)).1 := by
  have hfinal := tableStep_follows.finalState calls h.shows
  refine ⟨tableStep_follows.trace calls h.shows, (Shows.scanTable_tracks _ _ hfinal).1, ?_⟩
  intro index hmem key
  obtain ⟨index', hmem', hname, -⟩ := mem_normalized e hmem
  rw [← hname]
  exact hfinal.find_eq hmem' key

def peopleCalls : List TableCall :=
  [insertPerson 1 "a", insertPerson 2 "b", .revert 1, insertPerson 2 "c", renamePerson 0 3 "d",
    .row (.delete 2)]

theorem indexes_lead_to_people :
    AllSucceed people.databaseName people.tableName withPeople peopleCalls ∧
      ∃ rows, (scanTable people.databaseName people.tableName
          (finalState (stepOn people) withPeople peopleCalls)).1 = .ok rows ∧
        ∀ index ∈ people.indexes, LeadsToRows people index rows
          (finalState (stepOn people) withPeople peopleCalls) := by
  have hok : AllSucceed people.databaseName people.tableName withPeople peopleCalls := by
    unfold AllSucceed
    decide +kernel
  exact ⟨hok, indexes_lead_to_rows newTable_people peopleCalls hok⟩

theorem new_table_behaves_alone_people :
    trace (stepOn people) withPeople peopleCalls =
      trace (TableState.step (normalized withDatabase people) people.tableName)
        (.fresh (normalized withDatabase people) withDatabase.config.pageSize withDatabase.clock)
        peopleCalls :=
  (new_table_behaves_alone newTable_people peopleCalls).1

end StorageNodeEngine

end CourseDb

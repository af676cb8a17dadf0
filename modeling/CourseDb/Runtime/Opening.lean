import CourseDb.Versioning.Revert

/-! # Opening files

Tables, indexes and logs are opened when they are needed, and created if they
are missing. Whether this succeeds or not, every file keeps its content, new
files are empty, and everything that was open stays open.
-/

namespace CourseDb.StorageNodeEngine

open Fallible (Within read_bind bind_ok bind_eq_ok bind_error ofExcept_bind bind_apply)

/-- `e'` is `e` after files have been opened. -/
structure Opens (e e' : StorageNodeEngine) : Prop where
  disk : e.disk.Extends e'.disk
  config_eq : e'.config = e.config
  started_eq : e'.started = e.started
  clock_eq : e'.clock = e.clock
  tables : ∀ {k t}, e.openedTables k = some t → e'.openedTables k = some t
  logs : ∀ {k i}, e.openedVersionLogs k = some i → e'.openedVersionLogs k = some i
  indexes : ∀ {k i}, e.openedIndexes k = some i → e'.openedIndexes k = some i

instance : Std.Refl Opens where
  refl _ := ⟨.rfl, rfl, rfl, rfl, id, id, id⟩

instance : IsTrans StorageNodeEngine Opens where
  trans _ _ _ h h' :=
    ⟨h.disk.trans h'.disk, h'.config_eq.trans h.config_eq, h'.started_eq.trans h.started_eq,
      h'.clock_eq.trans h.clock_eq, fun hk => h'.tables (h.tables hk),
      fun hk => h'.logs (h.logs hk), fun hk => h'.indexes (h.indexes hk)⟩

/-- `e'` is `e` with new files on the disk and nothing else changed. -/
def AddsFiles (e e' : StorageNodeEngine) : Prop := ∃ d, e.disk.Extends d ∧ e' = { e with disk := d }

variable {e : StorageNodeEngine}

theorem AddsFiles.opens {e' : StorageNodeEngine} (h : AddsFiles e e') : Opens e e' := by
  obtain ⟨d, hd, rfl⟩ := h
  exact ⟨hd, rfl, rfl, rfl, id, id, id⟩

protected theorem AddsFiles.rfl : AddsFiles e e := ⟨e.disk, .rfl, Eq.refl e⟩

section Files

variable {path : ByteString} {α : Type} {f : Unit → Action α}

theorem ensureParentDir_eq (path : ByteString) (e : StorageNodeEngine) :
    ∃ d, ensureParentDir path e = (.ok (), { e with disk := d }) ∧ e.disk.Extends d ∧
      d.paths = e.disk.paths ∧ d.files = e.disk.files := by
  unfold ensureParentDir
  split_ifs
  · exact ⟨e.disk, rfl, .rfl, rfl, rfl⟩
  · exact ⟨_, rfl, .ensureDir _ _, rfl, rfl⟩

theorem createFile_addsFiles {content : FileContent} (hpath : e.disk.paths path = none)
    (hnew : content.IsNew) : AddsFiles e (createFile path content e).2 :=
  ⟨_, .create hpath hnew, rfl⟩

theorem createTableFile_addsFiles (hpath : e.disk.paths path = none) :
    AddsFiles e (createTableFile path e).2 := by
  unfold createTableFile
  rw [read_bind]
  split_ifs
  · exact createFile_addsFiles hpath trivial
  · exact createFile_addsFiles hpath rfl

theorem AddsFiles.after_ensureParentDir
    (hf : ∀ e', e'.disk.paths = e.disk.paths → AddsFiles e' (f () e').2) :
    AddsFiles e ((ensureParentDir path >>= f) e).2 := by
  obtain ⟨d, hdir, hext, hpaths, -⟩ := ensureParentDir_eq path e
  rw [bind_ok hdir]
  obtain ⟨d', hext', heq⟩ := hf { e with disk := d } hpaths
  exact ⟨d', hext.trans hext', heq⟩

theorem AddsFiles.after_check {x : Except Status Unit} (hf : AddsFiles e (f () e).2) :
    AddsFiles e ((Fallible.ofExcept x >>= f) e).2 := by
  rcases x with status | ⟨⟩
  · exact .rfl
  · exact hf

theorem openTableFile_addsFiles (path : ByteString) : Within AddsFiles (openTableFile path) := by
  intro e
  unfold openTableFile
  rw [read_bind]
  split_ifs
  · exact .rfl
  · exact .rfl
  · refine .after_ensureParentDir fun e' hpaths => ?_
    cases hpath : e.disk.paths path with
    | none => exact createTableFile_addsFiles (by rw [hpaths, hpath])
    | some file =>
      dsimp only
      rcases e.disk.files file with _ | (_ | _ | _ | _ | _) <;>
        first | exact .rfl | exact .after_check .rfl

theorem openIndexFile_addsFiles (path : ByteString) (cfg : BStarTree.Config) :
    Within AddsFiles (openIndexFile path cfg) := by
  intro e
  unfold openIndexFile
  rw [read_bind]
  refine .after_ensureParentDir fun e' hpaths => ?_
  cases hpath : e.disk.paths path with
  | none => exact createFile_addsFiles (by rw [hpaths, hpath]) rfl
  | some file =>
    dsimp only
    rcases e.disk.files file with _ | (_ | _ | index | _ | _)
    case some.index => exact .after_check (.after_check .rfl)
    all_goals first | exact .rfl | exact .after_check .rfl

theorem openVersionLogFile_addsFiles (path : ByteString) :
    Within AddsFiles (openVersionLogFile path) := by
  intro e
  unfold openVersionLogFile
  rw [read_bind]
  cases hpath : e.disk.paths path with
  | none =>
    exact .after_ensureParentDir fun e' hpaths =>
      createFile_addsFiles (by rw [hpaths, hpath]) rfl
  | some file =>
    dsimp only
    rcases e.disk.files file with _ | (_ | _ | _ | _ | _) <;> exact .rfl

end Files

section Caches

variable {e e' : StorageNodeEngine} {key : ByteString}

theorem update_keeps {β : Type} {cache : ByteString → Option β} (hnone : cache key = none)
    (v : Option β) {k : ByteString} {b : β} (h : cache k = some b) :
    Function.update cache key v k = some b := by
  have hk : k ≠ key := by
    rintro rfl
    rw [hnone] at h
    cases h
  rw [Function.update_of_ne hk, h]

theorem AddsFiles.enterIndex (h : AddsFiles e e') (hnone : e.openedIndexes key = none) (i : ℕ) :
    Opens e { e' with openedIndexes := Function.update e'.openedIndexes key (some i) } := by
  obtain ⟨d, hd, rfl⟩ := h
  exact ⟨hd, rfl, rfl, rfl, id, id, update_keeps hnone _⟩

/-- A file is opened, and what is done with it is left to show. -/
theorem opens_bind {α β : Type} {x : Action α} {f : α → Action β} (hx : Within AddsFiles x)
    (hf : ∀ a e', AddsFiles e e' → Opens e (f a e').2) : Opens e ((x >>= f) e).2 := by
  rcases hresult : x e with ⟨status | a, e'⟩
  · rw [bind_error hresult]
    exact (hx.of_eq hresult).opens
  · rw [bind_ok hresult]
    exact hf a e' (hx.of_eq hresult)

end Caches

section Tables

variable (db tbl : ByteString)

theorem ensureStarted_eq (e : StorageNodeEngine) :
    ensureStarted e = (if e.started then .ok () else .error notStarted, e) := by
  unfold ensureStarted
  rw [read_bind]
  split_ifs <;> rfl

theorem ensureStarted_of_started (h : e.started = true) : ensureStarted e = (.ok (), e) := by
  rw [ensureStarted_eq, if_pos h]

theorem ensureStarted_opens : Within Opens ensureStarted := by
  intro e
  rw [ensureStarted_eq]
  exact refl e

theorem loadTableDescriptor_eq (e : StorageNodeEngine) :
    loadTableDescriptor db tbl e =
      (CatalogManager.getTable e.config.dataDir db tbl e.disk, e) := rfl

theorem openTable_opens : Within Opens (openTable db tbl) := by
  intro e
  unfold openTable
  rw [read_bind]
  cases hcache : e.openedTables (makeTableCacheKey db tbl) with
  | some table => exact refl e
  | none =>
    dsimp only
    rw [bind_apply, loadTableDescriptor_eq]
    rcases CatalogManager.getTable e.config.dataDir db tbl e.disk with status | desc
    · exact refl e
    · refine opens_bind (openTableFile_addsFiles desc.dataFile) ?_
      rintro _ _ ⟨d, hd, rfl⟩
      exact ⟨hd, rfl, rfl, rfl, update_keeps hcache _, id, id⟩

variable {db tbl} in
theorem openTable_of_cached {e : StorageNodeEngine} {table : OpenTableState}
    (h : e.openedTables (makeTableCacheKey db tbl) = some table) :
    openTable db tbl e = (.ok table, e) := by
  unfold openTable
  rw [read_bind, h]
  rfl

variable {db tbl} in
theorem openTable_caches {e e' : StorageNodeEngine} {table : OpenTableState}
    (h : openTable db tbl e = (.ok table, e')) :
    e'.openedTables (makeTableCacheKey db tbl) = some table := by
  unfold openTable at h
  rw [read_bind] at h
  cases hcache : e.openedTables (makeTableCacheKey db tbl) with
  | some table' =>
    rw [hcache] at h
    cases h
    exact hcache
  | none =>
    rw [hcache] at h
    obtain ⟨desc, e₁, -, h⟩ := bind_eq_ok.mp h
    obtain ⟨file, e₂, -, h⟩ := bind_eq_ok.mp h
    cases h
    exact Function.update_self _ _ _

theorem openVersionLog_opens : Within Opens (openVersionLog db tbl) := by
  intro e
  unfold openVersionLog
  rw [read_bind]
  cases hcache : e.openedVersionLogs (makeVersionLogCacheKey db tbl) with
  | some file => exact refl e
  | none =>
    dsimp only
    rw [bind_apply, loadTableDescriptor_eq]
    rcases CatalogManager.getTable e.config.dataDir db tbl e.disk with status | desc
    · exact refl e
    · refine opens_bind (openVersionLogFile_addsFiles (resolveVersionLogPath e.config desc)) ?_
      rintro _ _ ⟨d, hd, rfl⟩
      exact ⟨hd, rfl, rfl, rfl, id, update_keeps hcache _, id⟩

theorem registerIndex_opens (desc : IndexDescriptor) (keyType : ValueType) (create : Bool) :
    Within Opens (IndexManager.registerIndex desc keyType create) := by
  unfold IndexManager.registerIndex
  refine (Within.ofExcept _).bind fun _ => ?_
  intro e
  rw [read_bind]
  split_ifs with hopen hmissing
  · exact refl e
  · exact refl e
  · have hcache : e.openedIndexes desc.name = none := by simpa using hopen
    rcases IndexManager.treeConfig e.config.pageSize keyType with status | cfg
    · exact refl e
    · rw [ofExcept_bind rfl]
      exact opens_bind (openIndexFile_addsFiles desc.filePath cfg)
        fun _ _ hadds => hadds.enterIndex hcache _

theorem createIndex_opens (desc : IndexDescriptor) (keyType : ValueType) :
    Within Opens (IndexManager.createIndex desc keyType) := registerIndex_opens desc keyType true

theorem openIndex_opens (desc : IndexDescriptor) (keyType : ValueType) :
    Within Opens (IndexManager.openIndex desc keyType) := registerIndex_opens desc keyType false

theorem registerIndexes_opens {register : IndexDescriptor → ValueType → Action Unit}
    (hregister : ∀ index keyType, Within Opens (register index keyType)) (schema : TableSchema)
    (indexes : List IndexDescriptor) : Within Opens (registerIndexes schema register indexes) := by
  induction indexes with
  | nil => exact Within.pure ()
  | cons index indexes ih =>
    unfold registerIndexes
    cases schema.findColumnSchema index.columnName with
    | none => exact Within.fail _
    | some column => exact (hregister _ _).bind fun _ => ih

theorem openForChange_opens : Within Opens (openForChange db tbl) :=
  (ensureStarted_opens).bind fun _ => (openTable_opens _ _).bind fun table =>
    (registerIndexes_opens openIndex_opens _ table.descriptor.indexes).bind fun _ => Within.pure table

variable {db tbl} {e e' : StorageNodeEngine} {table : OpenTableState}

theorem openForChange_of_openTable (hstarted : e.started = true)
    (h : openTable db tbl e = (.ok table, e')) :
    openForChange db tbl e =
      (openTableIndexes table.descriptor >>= fun _ => pure table) e' := by
  unfold openForChange
  rw [bind_ok (ensureStarted_of_started hstarted), bind_ok h]

theorem openForChange_after_openTable (hstarted : e.started = true)
    (h : openTable db tbl e = (.ok table, e')) :
    openForChange db tbl e' = openForChange db tbl e := by
  have hopens := (openTable_opens db tbl).of_eq h
  rw [openForChange_of_openTable hstarted h, openForChange_of_openTable
    (hopens.started_eq.trans hstarted) (openTable_of_cached (openTable_caches h))]

theorem openTable_of_openForChange (h : openForChange db tbl e = (.ok table, e')) :
    ∃ e₁, openTable db tbl e = (.ok table, e₁) := by
  unfold openForChange at h
  obtain ⟨⟨⟩, e₁, hstart, h₁⟩ := bind_eq_ok.mp h
  obtain ⟨table₁, e₂, htable, h₂⟩ := bind_eq_ok.mp h₁
  obtain ⟨⟨⟩, e₃, -, h₃⟩ := bind_eq_ok.mp h₂
  cases h₃
  rw [ensureStarted_eq] at hstart
  obtain ⟨-, rfl⟩ := Prod.mk.inj hstart
  exact ⟨e₂, htable⟩

theorem openForChange_ok (h : openForChange db tbl e = (.ok table, e')) :
    e.started = true ∧ e'.openedTables (makeTableCacheKey db tbl) = some table ∧
      ∀ table', e.openedTables (makeTableCacheKey db tbl) = some table' →
        table' = table := by
  unfold openForChange at h
  obtain ⟨⟨⟩, e₁, hstart, h⟩ := bind_eq_ok.mp h
  rw [ensureStarted_eq] at hstart
  obtain ⟨table₁, e₂, htable, h⟩ := bind_eq_ok.mp h
  obtain ⟨⟨⟩, e₃, hindexes, h⟩ := bind_eq_ok.mp h
  cases h
  have hregister := registerIndexes_opens openIndex_opens table.descriptor.schema
    table.descriptor.indexes e₂
  rw [show registerIndexes table.descriptor.schema IndexManager.openIndex
    table.descriptor.indexes e₂ = _ from hindexes] at hregister
  split_ifs at hstart with hstarted
  · cases hstart
    refine ⟨hstarted, hregister.tables (openTable_caches htable), fun table' hcache => ?_⟩
    rw [openTable_of_cached hcache] at htable
    cases htable
    rfl
  · cases hstart

end Tables

end CourseDb.StorageNodeEngine

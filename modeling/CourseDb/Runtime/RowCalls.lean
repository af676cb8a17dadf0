import CourseDb.Runtime.Opening
import CourseDb.Storage.HeapChanges

/-! # Calls on rows that fail

A call on a row opens the table and its indexes, then changes the table, its
indexes and its log one after the other. Once they are open, opening them again
does nothing. When a step fails, the steps before it are not undone: such a call
leaves everything as it was exactly if it fails before the first step that
changes something.
-/

namespace CourseDb.StorageNodeEngine

open Fallible (Within read_bind bind_ok bind_error ofExcept_bind)

/-- No row and no key is changed, and what is open stays open. -/
structure Keeps (e e' : StorageNodeEngine) : Prop where
  disk : e.disk.SameContents e'.disk
  config_eq : e'.config = e.config
  started_eq : e'.started = e.started
  tables : ∀ {k t}, e.openedTables k = some t → e'.openedTables k = some t

instance : Std.Refl Keeps where
  refl _ := ⟨.rfl, rfl, rfl, id⟩

instance : IsTrans StorageNodeEngine Keeps where
  trans _ _ _ h h' :=
    ⟨h.disk.trans h'.disk, h'.config_eq.trans h.config_eq, h'.started_eq.trans h.started_eq,
      fun hk => h'.tables (h.tables hk)⟩

theorem Opens.keeps {e e' : StorageNodeEngine} (h : Opens e e') : Keeps e e' :=
  ⟨h.disk.sameContents, h.config_eq, h.started_eq, h.tables⟩

def SameRows (e e' : StorageNodeEngine) : Prop := ∀ file, e'.disk.liveRows file = e.disk.liveRows file

instance : Std.Refl SameRows where
  refl _ _ := rfl

instance : IsTrans StorageNodeEngine SameRows where
  trans _ _ _ h h' file := (h' file).trans (h file)

/-- A key that is not in an index is not put there. -/
def AddsNoKey (e e' : StorageNodeEngine) : Prop :=
  ∀ file key, e.disk.keys file key = none → e'.disk.keys file key = none

instance : Std.Refl AddsNoKey where
  refl _ _ _ := id

instance : IsTrans StorageNodeEngine AddsNoKey where
  trans _ _ _ h h' file key hnone := h' file key (h file key hnone)

theorem Keeps.sameRows {e e' : StorageNodeEngine} (h : Keeps e e') : SameRows e e' :=
  h.disk.liveRows

theorem Keeps.addsNoKey {e e' : StorageNodeEngine} (h : Keeps e e') : AddsNoKey e e' :=
  fun file key hnone => by rw [h.disk.keys file, hnone]

section Steps

variable {α : Type} {e : StorageNodeEngine} {file rid : ℕ} {heap : Heap}

theorem onTable_of_file (hfile : e.disk.files file = some (.table heap)) (x : Heap.Action α) :
    onTable file x e = ((x heap).1, { e with disk := e.disk.write file (.table (x heap).2) }) := by
  rw [onTable, hfile]

theorem onTable_of_same (hfile : e.disk.files file = some (.table heap)) {x : Heap.Action α}
    {r : Except Status α} (hx : x heap = (r, heap)) : onTable file x e = (r, e) := by
  rw [onTable_of_file hfile, hx, FileSystem.write_self hfile]

theorem onTable_of_no_table (hfile : ∀ heap, e.disk.files file ≠ some (.table heap))
    (x : Heap.Action α) : onTable file x e = (.error cannotRead, e) := by
  unfold onTable
  split
  case h_1 heap hheap => exact absurd hheap (hfile heap)
  case h_2 => rfl

theorem onTable_cases (file : ℕ) (e : StorageNodeEngine) :
    (∃ heap, e.disk.files file = some (.table heap)) ∨
      ∀ {α : Type} (x : Heap.Action α), onTable file x e = (.error cannotRead, e) := by
  by_cases h : ∃ heap, e.disk.files file = some (.table heap)
  · exact .inl h
  · exact .inr fun x => onTable_of_no_table (not_exists.mp h) x

theorem onTable_get (file rid : ℕ) (e : StorageNodeEngine) :
    (onTable file (TableStorage.get rid) e).2 = e := by
  rcases onTable_cases file e with ⟨heap, hfile⟩ | hnone
  · rcases TableStorage.get_cases rid heap with ⟨s, hget⟩ | ⟨row, -, -, hget⟩
    · rw [onTable_of_same hfile hget]
    · rw [onTable_of_same hfile hget]
  · rw [hnone]

theorem onVersionLog_keeps (file : ℕ) (x : VersionLog.Action α) :
    Within Keeps (onVersionLog file x) := by
  intro e
  unfold onVersionLog
  split
  case h_1 records hfile => exact ⟨.writeVersionLog hfile, rfl, rfl, id⟩
  case h_2 => exact refl e

theorem onVersionLog_append_error {record : VersionRecord} {s : Status}
    (h : (onVersionLog file (VersionLog.append record) e).1 = .error s) :
    (onVersionLog file (VersionLog.append record) e).2 = e := by
  unfold onVersionLog at h ⊢
  split
  case h_1 records hfile =>
    rw [hfile] at h
    dsimp only at h
    rcases VersionLog.append_cases record records with ⟨s', happend⟩ | happend
    · rw [happend, FileSystem.write_self hfile]
    · rw [happend] at h
      cases h
  case h_2 => rfl

theorem nowTimestampMs_apply (e : StorageNodeEngine) :
    nowTimestampMs e = (.ok (e.clock 0), { e with clock := fun n => e.clock (n + 1) }) := rfl

theorem nowTimestampMs_keeps : Within Keeps nowTimestampMs :=
  fun _ => ⟨.rfl, rfl, rfl, id⟩

theorem appendVersion_keeps (db tbl : ByteString) (rid : ℕ) (op : VersionOp)
    (before after : Tuple) : Within Keeps (appendVersion db tbl rid op before after) :=
  ((openVersionLog_opens _ _).mono Opens.keeps).bind fun log =>
    nowTimestampMs_keeps.bind fun _ => onVersionLog_keeps log _

theorem onIndex_sameRows (file : ℕ) (x : KeyIndex.Action α) : Within SameRows (onIndex file x) := by
  intro e
  unfold onIndex
  split
  case h_1 index hfile => exact Disk.liveRows_write_index hfile _
  case h_2 => exact refl e

theorem onTable_addsNoKey (file : ℕ) (x : Heap.Action α) : Within AddsNoKey (onTable file x) := by
  intro e
  unfold onTable
  split
  case h_1 heap hfile =>
    intro i key hnone
    exact (congrFun (Disk.keys_write_table hfile _ i) key).trans hnone
  case h_2 => exact refl e

theorem getOpenedIndex_eq (name : ByteString) (e : StorageNodeEngine) :
    IndexManager.getOpenedIndex name e =
      match e.openedIndexes name with
      | none => (.error IndexManager.indexNotOpen, e)
      | some file => (.ok file, e) := by
  unfold IndexManager.getOpenedIndex
  rw [read_bind]
  cases e.openedIndexes name <;> rfl

theorem getOpenedIndex_within {R : StorageNodeEngine → StorageNodeEngine → Prop} [Std.Refl R]
    (name : ByteString) : Within R (IndexManager.getOpenedIndex name) := by
  intro e
  rw [getOpenedIndex_eq]
  cases e.openedIndexes name <;> exact refl e

/-- Either nothing happens, or the key was in the index and is no longer. -/
theorem indexDelete_cases (name : ByteString) (key : Value) (e : StorageNodeEngine) :
    (∃ s, IndexManager.delete name key e = (.error s, e) ∧
        ∀ file x, e.openedIndexes name = some file → e.disk.files file = some (.index x) →
          ∃ s, (KeyIndex.delete key x).1 = .error s) ∨
      ∃ file x, e.openedIndexes name = some file ∧ e.disk.files file = some (.index x) ∧
        x.keys key ≠ none ∧ (KeyIndex.delete key x).1 = .ok () ∧
        IndexManager.delete name key e =
          (.ok (),
            { e with
              disk := e.disk.write file
                (.index { x with keys := Function.update x.keys key none }) }) := by
  unfold IndexManager.delete
  have hopened := getOpenedIndex_eq name e
  rcases hname : e.openedIndexes name with _ | file
  · rw [hname] at hopened
    rw [bind_error hopened]
    exact .inl ⟨_, rfl, by simp⟩
  · rw [hname] at hopened
    rw [bind_ok hopened, onIndex]
    split
    case h_1 x hfile =>
      rcases KeyIndex.delete_cases key x with ⟨s, hdel⟩ | ⟨hkey, hdel⟩
      · left
        rw [hdel, FileSystem.write_self hfile]
        refine ⟨s, rfl, fun i y hi hy => ?_⟩
        cases hi
        rw [hfile] at hy
        cases hy
        exact ⟨s, by rw [hdel]⟩
      · right
        rw [hdel]
        exact ⟨file, x, rfl, hfile, hkey, by rw [hdel], rfl⟩
    case h_2 hfile =>
      left
      refine ⟨_, rfl, fun i y hi hy => ?_⟩
      cases hi
      exact absurd hy (hfile y)

theorem indexDelete_addsNoKey (name : ByteString) (key : Value) :
    Within AddsNoKey (IndexManager.delete name key) := by
  intro e
  rcases indexDelete_cases name key e with ⟨s, hdel, -⟩ | ⟨file, x, -, hfile, -, -, hdel⟩
  · rw [hdel]
    exact refl e
  · rw [hdel]
    intro i k hnone
    by_cases hi : i = file
    · subst hi
      rw [Disk.keys, hfile] at hnone
      change Disk.keysIn ((e.disk.write i _).files i) k = none
      rw [FileSystem.write_file_self hfile]
      change Function.update x.keys key none k = none
      by_cases hk : k = key
      · rw [hk, Function.update_self]
      · rw [Function.update_of_ne hk]
        exact hnone
    · change Disk.keysIn ((e.disk.write file _).files i) k = none
      rw [FileSystem.write_file_of_ne hi]
      exact hnone

end Steps

section Loops

variable (desc : TableDescriptor) (rid : ℕ) (indexes : List IndexDescriptor)

section Within

variable {R : StorageNodeEngine → StorageNodeEngine → Prop} [Std.Refl R]
  [IsTrans StorageNodeEngine R]

theorem eachKey_within {act : ByteString → Value → Action Unit}
    (h : ∀ name key, Within R (act name key)) (tuple : Tuple) :
    Within R (eachKey desc tuple act indexes) := by
  induction indexes with
  | nil => exact Within.pure ()
  | cons index indexes ih =>
    refine (Within.ofExcept _).bind fun key => ?_
    split_ifs
    · exact ih
    · exact (h _ _).bind fun _ => ih

section

variable (h : ∀ file (x : KeyIndex.Action Unit), Within R (onIndex file x))
include h

theorem openedIndex_within (name : ByteString) (x : KeyIndex.Action Unit) :
    Within R (IndexManager.getOpenedIndex name >>= fun file => onIndex file x) :=
  (getOpenedIndex_within name).bind fun file => h file x

theorem eachKey_opened_within {x : Value → KeyIndex.Action Unit} (tuple : Tuple) :
    Within R (eachKey desc tuple
      (fun name key => IndexManager.getOpenedIndex name >>= fun file => onIndex file (x key))
      indexes) :=
  eachKey_within _ _ (fun _ _ => openedIndex_within h _ _) tuple

theorem updateIndex_within (index : IndexDescriptor) (oldKey newKey : Value) :
    Within R (updateIndex index oldKey newKey rid) := by
  have hinsert := openedIndex_within h index.name (KeyIndex.insert newKey rid)
  have hdelete := openedIndex_within h index.name (KeyIndex.delete oldKey)
  unfold updateIndex
  split_ifs
  · exact Within.pure ()
  · exact hinsert
  · exact hdelete
  · exact Within.pure ()
  · exact hdelete.bind fun _ => hinsert

theorem updateIndexes_within (before after : Tuple) :
    Within R (updateIndexes desc before after rid indexes) := by
  induction indexes with
  | nil => exact Within.pure ()
  | cons index indexes ih =>
    exact (Within.ofExcept _).bind fun _ => (Within.ofExcept _).bind fun _ =>
      (updateIndex_within _ h _ _ _).bind fun _ => ih

end

end Within

theorem updateIndexes_self (tuple : Tuple) (e : StorageNodeEngine) :
    (updateIndexes desc tuple tuple rid indexes e).2 = e := by
  induction indexes with
  | nil => rfl
  | cons index indexes ih =>
    unfold updateIndexes
    rcases extractIndexKey desc index tuple with s | key
    · rfl
    · have hskip : updateIndex index key key rid e = (.ok (), e) := by
        unfold updateIndex
        by_cases hnull : key.isNull <;> simp [hnull]
      rw [ofExcept_bind rfl,
        ofExcept_bind rfl, bind_ok hskip]
      exact ih

end Loops

open Fallible (read_bind bind_ok bind_eq_ok ofExcept_apply ofExcept_bind)
open IndexManager (validateDescriptor registerIndex openIndex)

variable {db tbl : ByteString} {table : OpenTableState} {e e' : StorageNodeEngine}
  {desc : IndexDescriptor} {keyType : ValueType} {create : Bool} {schema : TableSchema}
  {indexes : List IndexDescriptor}

/-- The table and its indexes are open. -/
structure Mounted (dbName tableName : ByteString) (table : OpenTableState)
    (e : StorageNodeEngine) : Prop where
  started : e.started = true
  cached : e.openedTables (makeTableCacheKey dbName tableName) = some table
  indexes : ∀ index ∈ table.descriptor.indexes,
    validateDescriptor index = .ok () ∧
      (table.descriptor.schema.findColumnSchema index.columnName).isSome ∧
      (e.openedIndexes index.name).isSome

/-- Nothing but the disk and the clock is different, and the version logs that are open. -/
structure SameTables (e e' : StorageNodeEngine) : Prop where
  config_eq : e'.config = e.config
  started_eq : e'.started = e.started
  tables_eq : e'.openedTables = e.openedTables
  indexes_eq : e'.openedIndexes = e.openedIndexes

theorem Mounted.of_sameTables (h : Mounted db tbl table e) (hsame : SameTables e e') :
    Mounted db tbl table e' where
  started := hsame.started_eq.trans h.started
  cached := by rw [hsame.tables_eq, h.cached]
  indexes := by
    rw [hsame.indexes_eq]
    exact h.indexes

theorem registerIndex_ok (h : registerIndex desc keyType create e = (.ok (), e')) :
    validateDescriptor desc = .ok () ∧ (e'.openedIndexes desc.name).isSome := by
  unfold registerIndex at h
  obtain ⟨⟨⟩, e₁, hcheck, h⟩ := bind_eq_ok.mp h
  rw [ofExcept_apply] at hcheck
  obtain ⟨hvalid, rfl⟩ := Prod.mk.inj hcheck
  refine ⟨hvalid, ?_⟩
  rw [read_bind] at h
  split_ifs at h with hopen hmissing
  · cases h
    exact hopen
  · cases h
  · obtain ⟨cfg, e₂, -, h⟩ := bind_eq_ok.mp h
    obtain ⟨file, e₃, -, h⟩ := bind_eq_ok.mp h
    cases h
    simp

theorem registerIndex_of_open (hvalid : validateDescriptor desc = .ok ())
    (hopen : (e.openedIndexes desc.name).isSome) :
    registerIndex desc keyType create e = (.ok (), e) := by
  unfold registerIndex
  rw [ofExcept_bind hvalid,
    read_bind, if_pos hopen]
  rfl

theorem registerIndexes_ok (h : registerIndexes schema openIndex indexes e = (.ok (), e')) :
    ∀ index ∈ indexes, validateDescriptor index = .ok () ∧
      (schema.findColumnSchema index.columnName).isSome ∧ (e'.openedIndexes index.name).isSome := by
  induction indexes generalizing e with
  | nil => simp
  | cons index indexes ih =>
    unfold registerIndexes at h
    cases hcolumn : schema.findColumnSchema index.columnName with
    | none =>
      rw [hcolumn] at h
      cases h
    | some column =>
      rw [hcolumn] at h
      obtain ⟨⟨⟩, e₁, hfirst, hrest⟩ := bind_eq_ok.mp h
      obtain ⟨hvalid, hopen⟩ := registerIndex_ok hfirst
      have hopens := (registerIndexes_opens openIndex_opens schema indexes).of_eq hrest
      obtain ⟨file, hfile⟩ := Option.isSome_iff_exists.mp hopen
      refine List.forall_mem_cons.mpr ⟨⟨hvalid, by simp [hcolumn], ?_⟩, ih hrest⟩
      rw [hopens.indexes hfile]
      rfl

theorem registerIndexes_of_open
    (h : ∀ index ∈ indexes, validateDescriptor index = .ok () ∧
      (schema.findColumnSchema index.columnName).isSome ∧ (e.openedIndexes index.name).isSome) :
    registerIndexes schema openIndex indexes e = (.ok (), e) := by
  induction indexes with
  | nil => rfl
  | cons index indexes ih =>
    obtain ⟨⟨hvalid, hcolumn, hopen⟩, hrest⟩ := List.forall_mem_cons.mp h
    obtain ⟨column, hcolumn⟩ := Option.isSome_iff_exists.mp hcolumn
    unfold registerIndexes
    rw [hcolumn]
    exact (bind_ok (registerIndex_of_open hvalid hopen)).trans (ih hrest)

/-- After the call has opened what it needs, the table is mounted. -/
theorem openForChange_mounts (h : openForChange db tbl e = (.ok table, e')) :
    Mounted db tbl table e' := by
  have hopens := (openForChange_opens db tbl).of_eq h
  obtain ⟨hstarted, hcached, -⟩ := openForChange_ok h
  refine ⟨hopens.started_eq.trans hstarted, hcached, ?_⟩
  unfold openForChange at h
  obtain ⟨⟨⟩, e₁, -, h₁⟩ := bind_eq_ok.mp h
  obtain ⟨table₁, e₂, -, h₂⟩ := bind_eq_ok.mp h₁
  obtain ⟨⟨⟩, e₃, hindexes, hend⟩ := bind_eq_ok.mp h₂
  cases hend
  exact registerIndexes_ok hindexes

theorem Mounted.openTable (h : Mounted db tbl table e) :
    StorageNodeEngine.openTable db tbl e = (.ok table, e) :=
  openTable_of_cached h.cached

theorem Mounted.openForChange (h : Mounted db tbl table e) :
    StorageNodeEngine.openForChange db tbl e = (.ok table, e) := by
  rw [openForChange_of_openTable h.started h.openTable, openTableIndexes,
    bind_ok (registerIndexes_of_open h.indexes)]
  rfl

section Stored

variable {heap heap' : Heap} {file : ℕ}

def storeTable (e : StorageNodeEngine) (file : ℕ) (heap : Heap) : StorageNodeEngine :=
  { e with disk := e.disk.write file (.table heap) }

theorem storeTable_sameTables (e : StorageNodeEngine) (file : ℕ) (heap : Heap) :
    SameTables e (e.storeTable file heap) := ⟨rfl, rfl, rfl, rfl⟩

section

variable (hfile : e.disk.files file = some (.table heap))
include hfile

theorem storeTable_files_index {i : ℕ} {x : KeyIndex}
    (h : (e.storeTable file heap').disk.files i = some (.index x)) :
    e.disk.files i = some (.index x) := by
  by_cases hi : i = file
  · subst hi
    rw [storeTable, FileSystem.write_file_self hfile] at h
    cases h
  · rwa [storeTable, FileSystem.write_file_of_ne hi] at h

theorem storeTable_keeps (hrows : heap'.rows = heap.rows) (hsize : heap'.pageSize = heap.pageSize) :
    Keeps e (e.storeTable file heap') :=
  ⟨.writeTable hfile hrows hsize, rfl, rfl, id⟩

theorem onTable_storeTable {α : Type} {x : Heap.Action α} {r : Except Status α}
    (hx : x heap = (r, heap')) : onTable file x e = (r, e.storeTable file heap') := by
  rw [onTable_of_file hfile, hx]
  rfl

end

end Stored

end CourseDb.StorageNodeEngine

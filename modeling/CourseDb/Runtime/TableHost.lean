import CourseDb.Runtime.TableReverts

/-! # A table in its engine

An engine hosts a table if its open files hold the rows, the keys and the log of
the table. Then every call on the table answers as it does for the table by
itself, and the engine hosts what is left.
-/

namespace CourseDb.StorageNodeEngine

open Fallible (read_bind bind_ok bind_error bind_apply ofExcept_bind)
open TableState (moveKey eachIndex readAll onHeap)
open CatalogManager (getTable)
open Fallible (Tracks)
open RevertService (loadRecords applyInverseRecord)
open FileSystem (write_file_self write_file_of_ne)

variable {db tbl : ByteString} {table : OpenTableState} {e e' : StorageNodeEngine}
  {s s' : TableState} {records : List VersionRecord} {file : ℕ} {index : IndexDescriptor}

/-- The log is open and holds the records; or there are none and the log can be created. -/
def LogReady (dbName tableName : ByteString) (records : List VersionRecord)
    (e : StorageNodeEngine) : Prop :=
  (∃ file, e.openedVersionLogs (makeVersionLogCacheKey dbName tableName) = some file ∧
      e.disk.files file = some (.versionLog records)) ∨
    e.openedVersionLogs (makeVersionLogCacheKey dbName tableName) = none ∧ records = [] ∧
      ∃ descriptor, getTable e.config.dataDir dbName tableName e.disk = .ok descriptor ∧
        e.disk.paths (resolveVersionLogPath e.config descriptor) = none

theorem getTable_write {d : Disk} {content content' : FileContent}
    (hfile : d.files file = some content) (hno : ∀ desc, content ≠ .metadata desc)
    (hno' : ∀ desc, content' ≠ .metadata desc) (rootDir db tbl : ByteString) :
    getTable rootDir db tbl (d.write file content') =
      getTable rootDir db tbl d := by
  have hread : ∀ path, Disk.readTableMetaFile path (d.write file content') =
      Disk.readTableMetaFile path d := by
    intro path
    unfold Disk.readTableMetaFile FileSystem.content
    rw [show (d.write file content').paths path = d.paths path from rfl]
    rcases d.paths path with _ | i
    · rfl
    · simp only [Option.bind_eq_bind, Option.bind_some]
      by_cases hi : i = file
      · subst hi
        rw [write_file_self hfile, hfile]
        cases content' with
        | metadata desc => exact absurd rfl (hno' desc)
        | _ =>
          cases content with
          | metadata desc => exact absurd rfl (hno desc)
          | _ => rfl
      · rw [write_file_of_ne hi]
  unfold getTable
  rw [show CatalogManager.findTableMeta rootDir db tbl (d.write file content') =
    CatalogManager.findTableMeta rootDir db tbl d from rfl]
  rcases CatalogManager.findTableMeta rootDir db tbl d with status | path
  · rfl
  · exact hread path

theorem LogReady.write {content content' : FileContent} (h : LogReady db tbl records e)
    (hfile : e.disk.files file = some content) (hno : ∀ desc, content ≠ .metadata desc)
    (hno' : ∀ desc, content' ≠ .metadata desc) (hlog : ∀ rs, content ≠ .versionLog rs) :
    LogReady db tbl records { e with disk := e.disk.write file content' } := by
  rcases h with ⟨i, hopen, hi⟩ | ⟨hclosed, hnone, desc, hget, hpath⟩
  · have hne : i ≠ file := by
      rintro rfl
      rw [hfile] at hi
      exact hlog records (Option.some.inj hi)
    exact .inl ⟨i, hopen, (write_file_of_ne hne).trans hi⟩
  · exact .inr ⟨hclosed, hnone, desc, (getTable_write hfile hno hno' _ _ _).trans hget, hpath⟩

/-- The open files of the engine hold the table. -/
structure Hosts (dbName tableName : ByteString) (table : OpenTableState) (e : StorageNodeEngine)
    (s : TableState) : Prop where
  mounted : Mounted dbName tableName table e
  rows : e.disk.files table.file = some (.table s.heap)
  keys : ∀ index ∈ table.descriptor.indexes, ∃ file, e.openedIndexes index.name = some file ∧
    e.disk.files file = some (.index (s.indexes index.name))
  apart : ∀ index ∈ table.descriptor.indexes, ∀ index' ∈ table.descriptor.indexes,
    e.openedIndexes index.name = e.openedIndexes index'.name → index.name = index'.name
  log : LogReady dbName tableName s.records e
  clock_eq : e.clock = s.clock

namespace Hosts

theorem storeTable (h : Hosts db tbl table e s) (heap : Heap) :
    Hosts db tbl table (e.storeTable table.file heap) { s with heap } where
  mounted := h.mounted.of_sameTables (storeTable_sameTables e _ _)
  rows := write_file_self h.rows
  keys index hmem := by
    obtain ⟨file, hopen, hfile⟩ := h.keys index hmem
    have hne : file ≠ table.file := by
      rintro rfl
      rw [h.rows] at hfile
      cases hfile
    exact ⟨file, hopen, (write_file_of_ne hne).trans hfile⟩
  apart := h.apart
  log := h.log.write h.rows (by simp) (by simp) (by simp)
  clock_eq := h.clock_eq

theorem storeIndex (h : Hosts db tbl table e s) (hmem : index ∈ table.descriptor.indexes)
    (hopen : e.openedIndexes index.name = some file) (x : KeyIndex) :
    Hosts db tbl table { e with disk := e.disk.write file (.index x) }
      { s with indexes := Function.update s.indexes index.name x } := by
  obtain ⟨file', hopen', hfile⟩ := h.keys index hmem
  obtain rfl : file = file' := Option.some.inj (hopen.symm.trans hopen')
  refine ⟨h.mounted.of_sameTables ⟨rfl, rfl, rfl, rfl⟩, ?_, ?_, h.apart, ?_, h.clock_eq⟩
  · have hne : table.file ≠ file := by
      rintro heq
      rw [← heq, h.rows] at hfile
      cases hfile
    exact (write_file_of_ne hne).trans h.rows
  · intro index' hmem'
    obtain ⟨i, hi, hcontent⟩ := h.keys index' hmem'
    refine ⟨i, hi, ?_⟩
    change (e.disk.write file (.index x)).files i =
      some (.index (Function.update s.indexes index.name x index'.name))
    by_cases hname : index'.name = index.name
    · rw [hname, hopen] at hi
      cases hi
      rw [hname, Function.update_self]
      exact write_file_self hfile
    · have hne : i ≠ file := by
        rintro rfl
        exact hname (h.apart index' hmem' index hmem (hi.trans hopen.symm))
      rw [Function.update_of_ne hname]
      exact (write_file_of_ne hne).trans hcontent
  · exact h.log.write hfile (by simp) (by simp) (by simp)

end Hosts

/-! ## The steps of a call -/

section Steps

variable {α : Type}

theorem onTable_tracks (x : Heap.Action α) :
    Tracks (Hosts db tbl table) (onTable table.file x) (onHeap x) := by
  intro e s h
  rw [onTable_of_file h.rows]
  exact ⟨rfl, h.storeTable _⟩

theorem onIndex_tracks (hmem : index ∈ table.descriptor.indexes) (x : KeyIndex.Action α) :
    Tracks (Hosts db tbl table)
      (IndexManager.getOpenedIndex index.name >>= fun file => onIndex file x)
      (TableState.onIndex index.name x) := by
  intro e s h
  obtain ⟨file, hopen, hfile⟩ := h.keys index hmem
  have hget := getOpenedIndex_eq index.name e
  rw [hopen] at hget
  rw [bind_ok hget, onIndex, hfile]
  exact ⟨rfl, h.storeIndex hmem hopen _⟩

theorem ensureMissing_tracks (rid : ℕ) :
    Tracks (Hosts db tbl table) (ensureMissing table.file rid)
      (TableState.ensureMissing rid) := by
  intro e s h
  obtain ⟨hresult, hstate⟩ := onTable_tracks (TableStorage.get rid) e s h
  unfold ensureMissing TableState.ensureMissing
  rcases hget : onTable table.file (TableStorage.get rid) e with ⟨status | row, e₁⟩
  · rcases hget' : onHeap (TableStorage.get rid) s with ⟨status' | row', s₁⟩
    · rw [hget, hget'] at hresult hstate
      cases hresult
      dsimp only
      split_ifs
      · exact ⟨rfl, hstate⟩
      · exact ⟨rfl, hstate⟩
    · rw [hget, hget'] at hresult
      cases hresult
  · rcases hget' : onHeap (TableStorage.get rid) s with ⟨status' | row', s₁⟩
    · rw [hget, hget'] at hresult
      cases hresult
    · rw [hget, hget'] at hstate
      exact ⟨rfl, hstate⟩

end Steps

/-! ## The loops over the indexes -/

section Loops

/-- Work on each index, where `f` is the part of one index. -/
theorem eachIndex_tracks {loop : List IndexDescriptor → Action Unit}
    {f : IndexDescriptor → Action Unit} {g : IndexDescriptor → KeyIndex.Action Unit}
    (hnil : loop [] = pure ())
    (hcons : ∀ index indexes, loop (index :: indexes) = f index >>= fun _ => loop indexes)
    (hf : ∀ index ∈ table.descriptor.indexes,
      Tracks (Hosts db tbl table) (f index) (TableState.onIndex index.name (g index))) :
    Tracks (Hosts db tbl table) (loop table.descriptor.indexes)
      (eachIndex g table.descriptor.indexes) := by
  have hall : ∀ indexes : List IndexDescriptor, (∀ index ∈ indexes, index ∈ table.descriptor.indexes) →
      Tracks (Hosts db tbl table) (loop indexes) (eachIndex g indexes) := by
    intro indexes
    induction indexes with
    | nil =>
      intro _
      rw [hnil]
      exact Tracks.pure ()
    | cons index indexes ih =>
      intro hsub
      obtain ⟨hfirst, hrest⟩ := List.forall_mem_cons.mp hsub
      rw [hcons]
      exact (hf index hfirst).bind fun _ => ih hrest
  exact hall _ fun _ hmem => hmem

theorem pure_tracks_onIndex (name : ByteString) :
    Tracks (Hosts db tbl table) (pure ()) (TableState.onIndex name (pure ())) := by
  intro e s h
  refine ⟨rfl, ?_⟩
  change Hosts db tbl table e
    { s with indexes := Function.update s.indexes name (s.indexes name) }
  rwa [Function.update_eq_self]

theorem fail_tracks_onIndex {β : Type} (name : ByteString) (status : Status)
    (f : β → KeyIndex.Action Unit) :
    Tracks (Hosts db tbl table) (Fallible.fail status)
      (TableState.onIndex name (Fallible.ofExcept (.error status) >>= f)) := by
  intro e s h
  refine ⟨rfl, ?_⟩
  change Hosts db tbl table e
    { s with indexes := Function.update s.indexes name (s.indexes name) }
  rwa [Function.update_eq_self]

theorem unlessNull_tracks (hmem : index ∈ table.descriptor.indexes) (key : Value)
    (x : KeyIndex.Action Unit) :
    Tracks (Hosts db tbl table)
      (if key.isNull then pure () else
        IndexManager.getOpenedIndex index.name >>= fun file => onIndex file x)
      (TableState.onIndex index.name (if key.isNull then pure () else x)) := by
  split_ifs
  · exact pure_tracks_onIndex _
  · exact onIndex_tracks hmem _

variable (tuple after : Tuple) (rid : ℕ)

theorem eachKey_tracks {x : Value → KeyIndex.Action Unit} :
    Tracks (Hosts db tbl table)
      (eachKey table.descriptor tuple
        (fun name key => IndexManager.getOpenedIndex name >>= fun file => onIndex file (x key))
        table.descriptor.indexes)
      (eachIndex (fun index => do
        let key ← Fallible.ofExcept (extractIndexKey table.descriptor index tuple)
        if key.isNull then pure () else x key) table.descriptor.indexes) := by
  apply eachIndex_tracks (f := fun index => do
    let key ← Fallible.ofExcept (extractIndexKey table.descriptor index tuple)
    if key.isNull then pure () else
      IndexManager.getOpenedIndex index.name >>= fun file => onIndex file (x key)) rfl
  · intro index indexes
    funext e
    rw [eachKey]
    rcases extractIndexKey table.descriptor index tuple with status | key
    · rfl
    · rw [ofExcept_bind rfl, bind_apply, ofExcept_bind rfl]
      split_ifs <;> rfl
  · intro index hmem
    rcases extractIndexKey table.descriptor index tuple with status | key
    · exact fail_tracks_onIndex _ _ _
    · exact unlessNull_tracks hmem key (x key)

theorem updateIndex_eq (index : IndexDescriptor) (oldKey newKey : Value) (e : StorageNodeEngine) :
    updateIndex index oldKey newKey rid e =
      (if oldKey = newKey then pure () else
        (if oldKey.isNull then pure () else IndexManager.delete index.name oldKey) >>= fun _ =>
          if newKey.isNull then pure () else IndexManager.insert index.name newKey rid) e := by
  unfold updateIndex
  rcases hold : oldKey.isNull with _ | _
  · rcases hnew : newKey.isNull with _ | _
    · simp
    · have hne : oldKey ≠ newKey := by
        rintro rfl
        rw [hold] at hnew
        cases hnew
      simp only [Bool.false_and, Bool.false_eq_true, if_false, if_true, if_neg hne]
      rw [bind_apply]
      rcases IndexManager.delete index.name oldKey e with ⟨status | ⟨⟩, e₁⟩
      · rfl
      · rfl
  · rcases hnew : newKey.isNull with _ | _
    · have hne : oldKey ≠ newKey := by
        rintro rfl
        rw [hold] at hnew
        cases hnew
      simp only [Bool.and_false, Bool.false_eq_true, if_false, if_true, if_neg hne]
      rfl
    · have heq : oldKey = newKey :=
        ((Value.isNull_iff _).mp hold).trans ((Value.isNull_iff _).mp hnew).symm
      simp [heq]

theorem onIndex_bind {α β : Type} (name : ByteString) (x : KeyIndex.Action α)
    (f : α → KeyIndex.Action β) (s : TableState) :
    TableState.onIndex name (x >>= f) s =
      (TableState.onIndex name x >>= fun a => TableState.onIndex name (f a)) s := by
  rcases hx : x (s.indexes name) with ⟨status | a, x₁⟩
  · have hfirst : TableState.onIndex name x s =
        (.error status, { s with indexes := Function.update s.indexes name x₁ }) := by
      rw [TableState.onIndex, hx]
    rw [bind_error hfirst, TableState.onIndex, bind_error hx]
  · have hfirst : TableState.onIndex name x s =
        (.ok a, { s with indexes := Function.update s.indexes name x₁ }) := by
      rw [TableState.onIndex, hx]
    rw [bind_ok hfirst, TableState.onIndex, bind_ok hx]
    simp only [TableState.onIndex, Function.update_self, Function.update_idem]

theorem moveKey_tracks (hmem : index ∈ table.descriptor.indexes) (oldKey newKey : Value) :
    Tracks (Hosts db tbl table) (updateIndex index oldKey newKey rid)
      (TableState.onIndex index.name (moveKey oldKey newKey rid)) := by
  intro e s h
  rw [updateIndex_eq]
  unfold moveKey
  by_cases heq : oldKey = newKey
  · rw [if_pos heq, if_pos heq]
    exact pure_tracks_onIndex _ e s h
  · rw [if_neg heq, if_neg heq, onIndex_bind]
    exact (unlessNull_tracks hmem oldKey _).bind (fun _ => unlessNull_tracks hmem newKey _) e s h

theorem updateIndexes_tracks :
    Tracks (Hosts db tbl table)
      (updateIndexes table.descriptor tuple after rid table.descriptor.indexes)
      (TableState.updateIndexes table.descriptor tuple after rid) := by
  apply eachIndex_tracks (f := fun index => do
    let oldKey ← Fallible.ofExcept (extractIndexKey table.descriptor index tuple)
    let newKey ← Fallible.ofExcept (extractIndexKey table.descriptor index after)
    updateIndex index oldKey newKey rid) rfl
  · intro index indexes
    funext e
    rw [updateIndexes]
    rcases extractIndexKey table.descriptor index tuple with status | oldKey
    · rfl
    · rcases extractIndexKey table.descriptor index after with status | newKey
      · rfl
      · rfl
  · intro index hmem
    rcases extractIndexKey table.descriptor index tuple with status | oldKey
    · exact fail_tracks_onIndex _ _ _
    · rcases extractIndexKey table.descriptor index after with status | newKey
      · exact fail_tracks_onIndex _ status fun newKey => moveKey oldKey newKey rid
      · exact moveKey_tracks rid hmem oldKey newKey

end Loops

/-! ## The log -/

theorem Mounted.of_opens (h : Mounted db tbl table e) (ho : Opens e e') :
    Mounted db tbl table e' := by
  refine ⟨ho.started_eq.trans h.started, ho.tables h.cached, fun index hmem => ?_⟩
  obtain ⟨hvalid, hcolumn, hopen⟩ := h.indexes index hmem
  obtain ⟨file, hfile⟩ := Option.isSome_iff_exists.mp hopen
  refine ⟨hvalid, hcolumn, ?_⟩
  rw [ho.indexes hfile]
  rfl

namespace Hosts

theorem of_opens (h : Hosts db tbl table e s) (ho : Opens e e')
    (hlog : LogReady db tbl s.records e') : Hosts db tbl table e' s := by
  have hsame : ∀ index ∈ table.descriptor.indexes,
      e'.openedIndexes index.name = e.openedIndexes index.name := by
    intro index hmem
    obtain ⟨file, hopen, -⟩ := h.keys index hmem
    rw [hopen, ho.indexes hopen]
  refine ⟨h.mounted.of_opens ho, ho.disk.files h.rows, ?_, ?_, hlog, ho.clock_eq.trans h.clock_eq⟩
  · intro index hmem
    obtain ⟨file, hopen, hfile⟩ := h.keys index hmem
    exact ⟨file, ho.indexes hopen, ho.disk.files hfile⟩
  · intro index hmem index' hmem' heq
    rw [hsame index hmem, hsame index' hmem'] at heq
    exact h.apart index hmem index' hmem' heq

theorem openVersionLog (h : Hosts db tbl table e s) :
    ∃ file e', StorageNodeEngine.openVersionLog db tbl e = (.ok file, e') ∧
      Hosts db tbl table e' s ∧ e'.disk.files file = some (.versionLog s.records) ∧
      e'.openedVersionLogs (makeVersionLogCacheKey db tbl) = some file := by
  have hopens := openVersionLog_opens db tbl e
  rcases h.log with ⟨file, hopen, hfile⟩ | ⟨hclosed, hnone, descriptor, hget, hpath⟩
  · refine ⟨file, e, ?_, h, hfile, hopen⟩
    unfold StorageNodeEngine.openVersionLog
    rw [read_bind, hopen]
    rfl
  · have hload := loadTableDescriptor_eq db tbl e
    rw [hget] at hload
    obtain ⟨d, hdir, -, hpaths, -⟩ :=
      ensureParentDir_eq (resolveVersionLogPath e.config descriptor) e
    have hcreate : openVersionLogFile (resolveVersionLogPath e.config descriptor) e =
        (.ok d.nextFile,
          { e with disk := d.create (resolveVersionLogPath e.config descriptor) (.versionLog []) }) := by
      unfold openVersionLogFile
      rw [read_bind, hpath]
      exact bind_ok hdir
    have hrun : StorageNodeEngine.openVersionLog db tbl e = (.ok d.nextFile,
        { e with
          disk := d.create (resolveVersionLogPath e.config descriptor) (.versionLog [])
          openedVersionLogs := Function.update e.openedVersionLogs
            (makeVersionLogCacheKey db tbl) (some d.nextFile) }) := by
      unfold StorageNodeEngine.openVersionLog
      rw [read_bind, hclosed]
      dsimp only
      rw [bind_ok hload, bind_ok hcreate]
      rfl
    rw [hrun] at hopens
    have hcached := Function.update_self (makeVersionLogCacheKey db tbl)
      (some d.nextFile) e.openedVersionLogs
    refine ⟨_, _, hrun, h.of_opens hopens (.inl ⟨_, hcached, ?_⟩), ?_, hcached⟩
    · rw [hnone]
      exact FileSystem.create_file_self
    · rw [hnone]
      exact FileSystem.create_file_self

theorem storeLog (h : Hosts db tbl table e s)
    (hopen : e.openedVersionLogs (makeVersionLogCacheKey db tbl) = some file)
    (hfile : e.disk.files file = some (.versionLog s.records)) (records : List VersionRecord)
    (clock : ℕ → ℤ) : Hosts db tbl table
      { e with disk := e.disk.write file (.versionLog records), clock }
      { s with records, clock } where
  mounted := h.mounted.of_sameTables ⟨rfl, rfl, rfl, rfl⟩
  rows := by
    have hne : table.file ≠ file := by
      rintro heq
      rw [← heq, h.rows] at hfile
      cases hfile
    exact (write_file_of_ne hne).trans h.rows
  keys index hmem := by
    obtain ⟨i, hi, hcontent⟩ := h.keys index hmem
    have hne : i ≠ file := by
      rintro rfl
      rw [hfile] at hcontent
      cases hcontent
    exact ⟨i, hi, (write_file_of_ne hne).trans hcontent⟩
  apart := h.apart
  log := .inl ⟨file, hopen, write_file_self hfile⟩
  clock_eq := rfl

end Hosts

theorem appendVersion_tracks (rid : ℕ) (op : VersionOp) (before after : Tuple) :
    Tracks (Hosts db tbl table) (appendVersion db tbl rid op before after)
      (TableState.appendVersion tbl rid op before after) := by
  intro e s h
  obtain ⟨file, e₁, hrun, hhosts, hfile, hopen⟩ := h.openVersionLog
  unfold appendVersion TableState.appendVersion
  rw [bind_ok hrun, bind_ok (nowTimestampMs_apply e₁), onVersionLog]
  rw [hfile, hhosts.clock_eq]
  exact ⟨rfl, hhosts.storeLog hopen hfile _ _⟩

theorem loadRecords_tracks :
    Tracks (Hosts db tbl table) (loadRecords db tbl)
      readAll := by
  intro e s h
  obtain ⟨file, e₁, hrun, hhosts, hfile, hopen⟩ := h.openVersionLog
  unfold loadRecords readAll
  rw [bind_ok h.mounted.openTable, bind_ok hrun, onVersionLog, hfile]
  dsimp only
  rw [VersionLog.readAll_snd, FileSystem.write_self hfile]
  exact ⟨rfl, hhosts⟩

/-! ## The calls -/

section Calls

variable {α : Type} (tuple : Tuple) (rid : ℕ) (write : Bool)

theorem openForChange_tracks {f : OpenTableState → Action α} {y : TableState.Action α}
    (hf : Tracks (Hosts db tbl table) (f table) y) :
    Tracks (Hosts db tbl table) (openForChange db tbl >>= f) y := by
  intro e s h
  rw [bind_ok h.mounted.openForChange]
  exact hf e s h

theorem finish_tracks (op : VersionOp) (before after : Tuple) :
    Tracks (Hosts db tbl table)
      (if write then appendVersion db tbl rid op before after else pure ())
      (if write then TableState.appendVersion tbl rid op before after else pure ()) := by
  split_ifs
  · exact appendVersion_tracks rid op before after
  · exact Tracks.pure ()

theorem insertInternal_tracks :
    Tracks (Hosts db tbl table) (insertInternal db tbl tuple write)
      (TableState.insertInternal table.descriptor tbl tuple write) := by
  apply openForChange_tracks
  apply (onTable_tracks _).bind
  intro rid
  apply (onTable_tracks _).bind
  intro inserted
  apply (eachKey_tracks inserted.tuple).bind
  intro _
  split_ifs
  · exact (appendVersion_tracks rid _ _ _).bind fun _ => Tracks.pure rid
  · exact Tracks.pure rid

theorem updateInternal_tracks :
    Tracks (Hosts db tbl table) (updateInternal db tbl rid tuple write)
      (TableState.updateInternal table.descriptor tbl rid tuple write) := by
  apply openForChange_tracks
  apply (onTable_tracks _).bind
  intro before
  apply (onTable_tracks _).bind
  intro _
  apply (onTable_tracks _).bind
  intro after
  apply (updateIndexes_tracks before.tuple after.tuple rid).bind
  intro _
  exact finish_tracks rid write _ _ _

theorem deleteInternal_tracks :
    Tracks (Hosts db tbl table) (deleteInternal db tbl rid write)
      (TableState.deleteInternal table.descriptor tbl rid write) := by
  apply openForChange_tracks
  apply (onTable_tracks _).bind
  intro before
  apply (eachKey_tracks before.tuple).bind
  intro _
  apply (onTable_tracks _).bind
  intro _
  exact finish_tracks rid write _ _ _

theorem restoreInternal_tracks :
    Tracks (Hosts db tbl table) (restoreInternal db tbl rid tuple write)
      (TableState.restoreInternal table.descriptor tbl rid tuple write) := by
  apply openForChange_tracks
  apply (ensureMissing_tracks rid).bind
  intro _
  apply (onTable_tracks _).bind
  intro _
  apply (onTable_tracks _).bind
  intro restored
  apply (eachKey_tracks restored.tuple).bind
  intro _
  exact finish_tracks rid write _ _ _

theorem run_tracks (call : RowCall) :
    Tracks (Hosts db tbl table) (call.run db tbl)
      (TableState.run table.descriptor tbl call) := by
  cases call with
  | insert tuple => exact (insertInternal_tracks tuple true).bind fun _ => Tracks.pure ()
  | update rid tuple => exact updateInternal_tracks tuple rid true
  | delete rid => exact deleteInternal_tracks rid true

theorem applyInverseRecord_tracks (record : VersionRecord) :
    Tracks (Hosts db tbl table)
      (applyInverseRecord db tbl record)
      (TableState.applyInverseRecord table.descriptor tbl record) := by
  unfold applyInverseRecord TableState.applyInverseRecord
  cases record.op with
  | kInsert => exact deleteInternal_tracks _ _
  | kUpdate => exact updateInternal_tracks _ _ _
  | kDelete => exact restoreInternal_tracks _ _ _

theorem applyInverseRecords_tracks (records : List VersionRecord) :
    Tracks (Hosts db tbl table)
      (RevertService.applyInverseRecords db tbl records)
      (TableState.applyInverseRecords table.descriptor tbl records) := by
  induction records with
  | nil => exact Tracks.pure ()
  | cons record records ih => exact (applyInverseRecord_tracks record).bind fun _ => ih

theorem perform_tracks (call : TableCall) :
    Tracks (Hosts db tbl table) (call.run db tbl)
      (TableState.perform table.descriptor tbl call) := by
  cases call with
  | row call => exact run_tracks call
  | revert timestampMs =>
    apply loadRecords_tracks.bind
    intro records
    exact applyInverseRecords_tracks _

theorem scanTable_tracks :
    Tracks (Hosts db tbl table) (scanTable db tbl) TableState.scanTable := by
  intro e s h
  unfold scanTable
  rw [bind_ok (ensureStarted_of_started h.mounted.started), bind_ok h.mounted.openTable]
  exact onTable_tracks _ e s h

end Calls

/-! ## Tables that are not open yet -/

section Unopened

variable {desc : TableDescriptor} {e₁ : StorageNodeEngine}

section After

variable (hstarted : e.started = true) (h : openTable db tbl e = (.ok table, e₁))

include hstarted h

theorem openForChange_bind_after {α : Type} (f : OpenTableState → Action α) :
    (openForChange db tbl >>= f) e₁ = (openForChange db tbl >>= f) e := by
  rw [bind_apply, bind_apply, openForChange_after_openTable hstarted h]

theorem run_after_openTable (call : TableCall) :
    call.run db tbl e₁ = call.run db tbl e := by
  cases call with
  | row call =>
    cases call with
    | insert tuple =>
      have hinsert : insert db tbl tuple e₁ = insert db tbl tuple e :=
        openForChange_bind_after hstarted h _
      change (insert db tbl tuple >>= _) e₁ = (insert db tbl tuple >>= _) e
      rw [bind_apply, bind_apply, hinsert]
    | update rid tuple => exact openForChange_bind_after hstarted h _
    | delete rid => exact openForChange_bind_after hstarted h _
  | revert timestampMs =>
    have hload : loadRecords db tbl e₁ = loadRecords db tbl e := by
      unfold loadRecords
      rw [bind_ok h, bind_ok (openTable_of_cached (openTable_caches h))]
    change (loadRecords db tbl >>= _) e₁ = (loadRecords db tbl >>= _) e
    rw [bind_apply, bind_apply, hload]

theorem scanTable_after_openTable : scanTable db tbl e₁ = scanTable db tbl e := by
  have hopens := (openTable_opens db tbl).of_eq h
  unfold scanTable
  rw [bind_ok (ensureStarted_of_started hstarted), bind_ok h,
    bind_ok (ensureStarted_of_started (hopens.started_eq.trans hstarted)),
    bind_ok (openTable_of_cached (openTable_caches h))]

end After

/-- The engine hosts the table as soon as the table is opened; its indexes are open. -/
structure Shows (dbName tableName : ByteString) (descriptor : TableDescriptor)
    (e : StorageNodeEngine) (s : TableState) : Prop where
  started : e.started = true
  opens : ∃ file e₁, openTable dbName tableName e = (.ok ⟨descriptor, file⟩, e₁) ∧
    Hosts dbName tableName ⟨descriptor, file⟩ e₁ s
  keys : ∀ index ∈ descriptor.indexes, ∃ file, e.openedIndexes index.name = some file ∧
    e.disk.files file = some (.index (s.indexes index.name))

theorem Hosts.shows (h : Hosts db tbl table e s) :
    Shows db tbl table.descriptor e s :=
  ⟨h.mounted.started, ⟨table.file, e, h.mounted.openTable, h⟩, h.keys⟩

namespace Shows

theorem run_tracks (call : TableCall) :
    Tracks (Shows db tbl desc) (call.run db tbl)
      (TableState.perform desc tbl call) := by
  intro e s h
  obtain ⟨file, e₁, hopen, hhosts⟩ := h.opens
  obtain ⟨hresult, hstate⟩ := perform_tracks call e₁ s hhosts
  rw [run_after_openTable h.started hopen] at hresult hstate
  exact ⟨hresult, hstate.shows⟩

theorem scanTable_tracks :
    Tracks (Shows db tbl desc) (scanTable db tbl)
      TableState.scanTable := by
  intro e s h
  obtain ⟨file, e₁, hopen, hhosts⟩ := h.opens
  obtain ⟨hresult, hstate⟩ := StorageNodeEngine.scanTable_tracks e₁ s hhosts
  rw [scanTable_after_openTable h.started hopen] at hresult hstate
  exact ⟨hresult, hstate.shows⟩

theorem find_eq (h : Shows db tbl desc e s) (hmem : index ∈ desc.indexes)
    (key : Value) :
    (IndexManager.find index.name key e).1 = (KeyIndex.find key (s.indexes index.name)).1 := by
  obtain ⟨file, hopen, hfile⟩ := h.keys index hmem
  have hget := getOpenedIndex_eq index.name e
  rw [hopen] at hget
  unfold IndexManager.find
  rw [bind_ok hget, onIndex, hfile]

theorem clock_eq (h : Shows db tbl desc e s) : e.clock = s.clock := by
  obtain ⟨file, e₁, hopen, hhosts⟩ := h.opens
  have hopens := (openTable_opens db tbl).of_eq hopen
  exact hopens.clock_eq.symm.trans hhosts.clock_eq

theorem loadRecords_eq (h : Shows db tbl desc e s) :
    (loadRecords db tbl e).1 = (readAll s).1 := by
  obtain ⟨file, e₁, hopen, hhosts⟩ := h.opens
  obtain ⟨hresult, -⟩ := loadRecords_tracks e₁ s hhosts
  unfold loadRecords at hresult ⊢
  rw [bind_ok (openTable_of_cached (openTable_caches hopen))] at hresult
  rw [bind_ok hopen]
  exact hresult

end Shows

def tableStep (dbName tableName : ByteString) (e : StorageNodeEngine) (call : TableCall) :
    Except Status Unit × StorageNodeEngine :=
  call.run dbName tableName e

abbrev stepOn (desc : TableDescriptor) := tableStep desc.databaseName desc.tableName

/-- Every call on the table answers as it does for the table by itself. -/
theorem tableStep_follows :
    Follows (Shows db tbl desc) (tableStep db tbl)
      (TableState.step desc tbl) :=
  fun e s call h => Shows.run_tracks call e s h

end Unopened

end CourseDb.StorageNodeEngine

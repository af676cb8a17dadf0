import CourseDb.Runtime.TableEffects

/-! # The row ids of all tables

As long as no counter of row ids runs over, every table has different ids for its
rows, whatever is called; the records of the version logs have ids of rows, so
that undoing them does not make a counter run over either.
-/

namespace CourseDb

open Fallible (Within read_bind bind_ok bind_eq_ok bind_error modify_apply)

variable {content : FileContent} {record : VersionRecord}

/-- The rows of a table are counted; a record of a log is about a row that got its id. -/
def FileContent.Counted : FileContent → Prop
  | .table heap => heap.Counted
  | .versionLog records => ∀ record ∈ records, record.rid + 1 < 2 ^ 64
  | _ => True

theorem FileContent.IsNew.counted (h : content.IsNew) : content.Counted := by
  cases content with
  | table heap =>
    rw [h]
    exact Heap.empty_counted _
  | versionLog records =>
    subst h
    exact fun record hrecord => by cases hrecord
  | _ => trivial

/-- Nothing but descriptors of tables is added. -/
def Disk.AddsMetadata (d d' : Disk) : Prop :=
  ∀ file content, d'.files file = some content →
    d.files file = some content ∨ ∃ desc, content = .metadata desc

instance : Std.Refl Disk.AddsMetadata where
  refl _ _ _ h := .inl h

instance : IsTrans Disk Disk.AddsMetadata where
  trans _ _ _ h h' file content hc := (h' file content hc).elim (h file content) .inr

namespace CatalogManager

variable (rootDir db tbl : ByteString)

theorem ensureDir_addsMetadata (path : ByteString) :
    Within Disk.AddsMetadata (Disk.ensureDir path) := fun _ _ _ h => .inl h

theorem createDatabase_addsMetadata : Within Disk.AddsMetadata (createDatabase rootDir db) :=
  createDatabase_within ensureDir_addsMetadata

theorem dropDatabase_addsMetadata : Within Disk.AddsMetadata (dropDatabase rootDir db) := by
  refine (Within.ofExcept _).bind fun _ => Within.read.bind fun d => ?_
  split_ifs
  · exact Within.fail _
  · exact fun _ _ _ h => .inl h

theorem writeTableMetaFile_addsMetadata (path : ByteString) (desc : TableDescriptor) :
    Within Disk.AddsMetadata (Disk.writeTableMetaFile path desc) := by
  refine Within.read.bind fun d => ?_
  split_ifs
  · intro d₁ file content h
    by_cases hfile : file = d₁.nextFile
    · subst hfile
      rw [modify_apply, FileSystem.create_file_self] at h
      exact .inr ⟨desc, (Option.some.inj h).symm⟩
    · rw [modify_apply, FileSystem.create_file_of_ne hfile] at h
      exact .inl h
  · exact Within.fail _

theorem createTable_addsMetadata (table : TableDescriptor) :
    Within Disk.AddsMetadata (createTable rootDir table) := by
  refine Within.read.bind fun d => ?_
  split_ifs
  · exact Within.fail _
  · refine (Within.ofExcept _).bind fun _ => ?_
    dsimp only
    split_ifs
    · exact Within.fail _
    · exact writeTableMetaFile_addsMetadata _ _

theorem dropTable_addsMetadata : Within Disk.AddsMetadata (dropTable rootDir db tbl) :=
  Within.read.bind fun _ => (Within.ofExcept _).bind fun _ _ _ _ h => .inl h

end CatalogManager

namespace StorageNodeEngine

variable {α : Type} {e e' : StorageNodeEngine}

def Counted (e : StorageNodeEngine) : Prop :=
  ∀ file content, e.disk.files file = some content → content.Counted

theorem Counted.table {file : ℕ} {heap : Heap} (h : Counted e)
    (hfile : e.disk.files file = some (.table heap)) : heap.Counted :=
  h file _ hfile

theorem Counted.write (h : Counted e) (file : ℕ) (hcontent : content.Counted) :
    Counted { e with disk := e.disk.write file content } := by
  intro i c hi
  by_cases hne : i = file
  · subst hne
    cases hold : e.disk.files i with
    | none =>
      change Function.update e.disk.files i ((e.disk.files i).map fun _ => content) i = some c at hi
      rw [Function.update_self, hold] at hi
      cases hi
    | some old =>
      rw [FileSystem.write_file_self hold] at hi
      cases hi
      exact hcontent
  · rw [FileSystem.write_file_of_ne hne] at hi
    exact h i c hi

def KeepsCounted (e e' : StorageNodeEngine) : Prop := Counted e → Counted e'

instance : Std.Refl KeepsCounted where
  refl _ h := h

instance : IsTrans StorageNodeEngine KeepsCounted where
  trans _ _ _ h h' hc := h' (h hc)

theorem Opens.keepsCounted (h : Opens e e') : KeepsCounted e e' := by
  intro hc file content hfile
  cases hold : e.disk.files file with
  | none => exact (h.disk.fresh hold hfile).counted
  | some old =>
    rw [h.disk.files hold] at hfile
    cases hfile
    exact hc file _ hold

section Steps

variable {file rid : ℕ}

theorem onDisk_keepsCounted {x : Disk.Action α} (hx : Within Disk.AddsMetadata x) :
    Within KeepsCounted (onDisk x) := by
  intro e hc file content hfile
  rcases hx e.disk file content hfile with hold | ⟨desc, rfl⟩
  · exact hc file content hold
  · trivial

theorem onTable_keepsCounted (file : ℕ) {x : Heap.Action α}
    (hx : ∀ heap : Heap, heap.Counted → (x heap).2.Counted) :
    Within KeepsCounted (onTable file x) := by
  intro e hc
  unfold onTable
  split
  case h_1 heap hfile => exact hc.write file (hx heap (hc.table hfile))
  case h_2 => exact hc

theorem onIndex_keepsCounted (file : ℕ) (x : KeyIndex.Action α) :
    Within KeepsCounted (onIndex file x) := by
  intro e hc
  unfold onIndex
  split
  case h_1 index hfile => exact hc.write file trivial
  case h_2 => exact hc

theorem onVersionLog_append_keepsCounted (file : ℕ) (hrid : record.rid + 1 < 2 ^ 64) :
    Within KeepsCounted (onVersionLog file (VersionLog.append record)) := by
  intro e hc
  unfold onVersionLog
  split
  case h_1 records hfile =>
    have hrecords : ∀ r ∈ records, r.rid + 1 < 2 ^ 64 := hc file _ hfile
    refine hc.write file ?_
    rcases VersionLog.append_cases record records with ⟨s, happend⟩ | happend
    · rw [happend]
      exact hrecords
    · rw [happend]
      intro r hr
      rcases List.mem_append.mp hr with hr | hr
      · exact hrecords r hr
      · rw [List.mem_singleton.mp hr]
        exact hrid
  case h_2 => exact hc

theorem appendVersion_keepsCounted (db tbl : ByteString)
    (hrid : rid + 1 < 2 ^ 64) (op : VersionOp) (before after : Tuple) :
    Within KeepsCounted (appendVersion db tbl rid op before after) :=
  ((openVersionLog_opens _ _).mono fun h => h.keepsCounted).bind fun log =>
    Within.bind (fun _ hc => hc) fun _ => onVersionLog_append_keepsCounted log hrid

/-- A row that is found has got its id. -/
theorem get_then_keepsCounted {f : Row → Action α}
    (hf : rid + 1 < 2 ^ 64 → ∀ row, Within KeepsCounted (f row)) :
    Within KeepsCounted (onTable file (TableStorage.get rid) >>= f) := by
  intro e hc
  rcases onTable_cases file e with ⟨heap, hfile⟩ | hnone
  · rcases TableStorage.get_cases rid heap with ⟨s, hget⟩ | ⟨row, hfind, -, hget⟩
    · rw [bind_error (onTable_of_same hfile hget)]
      exact hc
    · have hheap := hc.table hfile
      have hrid : row.rid = rid := by simpa using List.find?_some hfind
      have hlt := hheap.rid_lt row (List.mem_of_find?_eq_some hfind)
      have hnext := hheap.next_lt
      rw [bind_ok (onTable_of_same hfile hget)]
      exact hf (by omega) row e hc
  · rw [bind_error (hnone _)]
    exact hc

end Steps

section Calls

variable (dbName tableName : ByteString) {rid : ℕ}

theorem openForChange_keepsCounted :
    Within KeepsCounted (openForChange dbName tableName) :=
  (openForChange_opens dbName tableName).mono fun h => h.keepsCounted

theorem updateInternal_keepsCounted (rid : ℕ) (tuple : Tuple) (record : Bool) :
    Within KeepsCounted (updateInternal dbName tableName rid tuple record) := by
  refine (openForChange_keepsCounted dbName tableName).bind fun table => ?_
  refine get_then_keepsCounted fun hrid before => ?_
  refine (onTable_keepsCounted _ fun heap hc =>
    TableStorage.update_counted hc _ rid tuple).bind fun _ => ?_
  refine (onTable_get_within _ _).bind fun after => ?_
  refine (updateIndexes_within _ _ _ onIndex_keepsCounted _ _).bind fun _ => ?_
  split_ifs
  · exact appendVersion_keepsCounted _ _ hrid _ _ _
  · exact Within.pure _

theorem deleteInternal_keepsCounted (rid : ℕ) (record : Bool) :
    Within KeepsCounted (deleteInternal dbName tableName rid record) := by
  refine (openForChange_keepsCounted dbName tableName).bind fun table => ?_
  refine get_then_keepsCounted fun hrid before => ?_
  refine (eachKey_opened_within _ _ onIndex_keepsCounted _).bind fun _ => ?_
  refine (onTable_keepsCounted _ fun heap hc => Heap.delete_counted hc rid).bind fun _ => ?_
  split_ifs
  · exact appendVersion_keepsCounted _ _ hrid _ _ _
  · exact Within.pure _

theorem ensureMissing_snd (file rid : ℕ) (e : StorageNodeEngine) :
    (ensureMissing file rid e).2 = e := by
  have hget := onTable_get file rid e
  unfold ensureMissing
  rcases hrow : onTable file (TableStorage.get rid) e with ⟨s | row, e'⟩
  · rw [hrow] at hget
    dsimp only
    split_ifs
    · exact hget
    · exact hget
  · rw [hrow] at hget
    exact hget

theorem restoreInternal_keepsCounted (hrid : rid + 1 < 2 ^ 64) (tuple : Tuple) (record : Bool) :
    Within KeepsCounted (restoreInternal dbName tableName rid tuple record) := by
  refine (openForChange_keepsCounted dbName tableName).bind fun table => ?_
  refine Within.bind (fun e hc => ?_) fun _ => ?_
  · rw [ensureMissing_snd]
    exact hc
  refine (onTable_keepsCounted _ fun heap hc =>
    TableStorage.restore_counted hc _ tuple hrid).bind fun _ => ?_
  refine (onTable_get_within _ _).bind fun restored => ?_
  refine (eachKey_opened_within _ _ onIndex_keepsCounted _).bind fun _ => ?_
  split_ifs
  · exact appendVersion_keepsCounted _ _ hrid _ _ _
  · exact Within.pure _

/-- The table has `n` more ids. -/
def RoomFor (n : ℕ) (e : StorageNodeEngine) : Prop :=
  ∀ table e₁ heap, openForChange dbName tableName e = (.ok table, e₁) →
    e₁.disk.files table.file = some (.table heap) → heap.nextRowId + n < 2 ^ 64

variable {dbName tableName} in
theorem insertInternal_counted (hc : Counted e) (hroom : RoomFor dbName tableName 1 e)
    (tuple : Tuple) (record : Bool) :
    Counted (insertInternal dbName tableName tuple record e).2 := by
  have hopens := openForChange_keepsCounted dbName tableName e hc
  unfold insertInternal
  rcases hopen : openForChange dbName tableName e with ⟨s | table, e₁⟩
  · rw [hopen] at hopens
    rw [bind_error hopen]
    exact hopens
  rw [hopen] at hopens
  rw [bind_ok hopen]
  rcases onTable_cases table.file e₁ with ⟨heap, hfile⟩ | hnone
  · have hnext := hroom table e₁ heap hopen hfile
    have hstored :=
      TableStorage.insert_counted (hopens.table hfile) hnext table.descriptor.schema tuple
    rcases hinsert : TableStorage.insert table.descriptor.schema tuple heap with ⟨s | rid, heap'⟩
    · rw [hinsert] at hstored
      rw [bind_error (onTable_storeTable hfile hinsert)]
      exact hopens.write _ hstored
    · rw [hinsert] at hstored
      have hrid : rid + 1 < 2 ^ 64 := by
        obtain ⟨-, -, heq, -⟩ := TableStorage.insert_live hinsert
        rw [heq]
        exact hnext
      rw [bind_ok (onTable_storeTable hfile hinsert)]
      refine Within.bind (R := KeepsCounted) (onTable_get_within _ _) (fun inserted => ?_) _
        (hopens.write _ hstored)
      refine (eachKey_opened_within _ _ onIndex_keepsCounted _).bind fun _ => ?_
      split_ifs
      · exact (appendVersion_keepsCounted _ _ hrid _ _ _).bind fun _ => Within.pure _
      · exact Within.pure _
  · rw [bind_error (hnone _)]
    exact hopens

end Calls

section Definition

variable (db tbl : ByteString)

theorem ensureStarted_keepsCounted : Within KeepsCounted ensureStarted := by
  intro e hc
  rw [ensureStarted_eq]
  exact hc

theorem createDatabase_keepsCounted : Within KeepsCounted (createDatabase db) :=
  ensureStarted_keepsCounted.bind fun _ => Within.read.bind fun _ =>
    onDisk_keepsCounted (CatalogManager.createDatabase_addsMetadata _ _)

theorem dropDatabase_keepsCounted : Within KeepsCounted (dropDatabase db) :=
  ensureStarted_keepsCounted.bind fun _ => Within.bind (fun _ hc => hc) fun _ =>
    Within.read.bind fun _ => onDisk_keepsCounted (CatalogManager.dropDatabase_addsMetadata _ _)

theorem createTable_keepsCounted (desc : TableDescriptor) :
    Within KeepsCounted (createTable desc) := by
  refine ensureStarted_keepsCounted.bind fun _ => Within.read.bind fun _ => ?_
  refine (onDisk_keepsCounted (CatalogManager.createTable_addsMetadata _ _)).bind fun _ => ?_
  refine Within.bind (fun _ hc => hc) fun normalized => ?_
  unfold ensureTableIndexesCreated
  split_ifs
  · exact Within.pure _
  · exact Within.bind (fun _ hc => hc) fun _ =>
      (registerIndexes_opens createIndex_opens _ _).mono fun h => h.keepsCounted

theorem dropTable_keepsCounted : Within KeepsCounted (dropTable db tbl) :=
  ensureStarted_keepsCounted.bind fun _ => Within.bind (fun _ hc => hc) fun _ =>
    Within.read.bind fun _ => onDisk_keepsCounted (CatalogManager.dropTable_addsMetadata _ _ _)

theorem getTableDescriptor_keepsCounted :
    Within KeepsCounted (getTableDescriptor db tbl) :=
  ensureStarted_keepsCounted.bind fun _ _ hc => hc

theorem scanTable_keepsCounted :
    Within KeepsCounted (scanTable db tbl) := by
  refine ensureStarted_keepsCounted.bind fun _ => ?_
  refine ((openTable_opens db tbl).mono fun h => h.keepsCounted).bind fun table => ?_
  refine onTable_keepsCounted _ fun heap hc => ?_
  rcases Heap.scan_cases heap with ⟨s, hscan⟩ | hscan
  · rw [show TableStorage.scan heap = _ from hscan]
    exact hc
  · rw [show TableStorage.scan heap = _ from hscan]
    exact hc

end Definition

end StorageNodeEngine

namespace RevertService

open StorageNodeEngine (Counted KeepsCounted)

variable (db tbl : ByteString) {e e' : StorageNodeEngine}
  {records : List VersionRecord}

theorem applyInverseRecord_keepsCounted (hrid : record.rid + 1 < 2 ^ 64) :
    Within KeepsCounted (applyInverseRecord db tbl record) := by
  unfold applyInverseRecord
  cases record.op with
  | kInsert => exact StorageNodeEngine.deleteInternal_keepsCounted _ _ _ _
  | kDelete => exact StorageNodeEngine.restoreInternal_keepsCounted _ _ hrid _ _
  | kUpdate => exact StorageNodeEngine.updateInternal_keepsCounted _ _ _ _ _

theorem applyInverseRecords_keepsCounted (h : ∀ record ∈ records, record.rid + 1 < 2 ^ 64) :
    Within KeepsCounted (applyInverseRecords db tbl records) := by
  induction records with
  | nil => exact Within.pure ()
  | cons record records ih =>
    obtain ⟨hrecord, hrest⟩ := List.forall_mem_cons.mp h
    exact (applyInverseRecord_keepsCounted db tbl hrecord).bind fun _ => ih hrest

variable {db tbl} in
theorem loadRecords_counted (hc : Counted e)
    (h : loadRecords db tbl e = (.ok records, e')) :
    ∀ record ∈ records, record.rid + 1 < 2 ^ 64 := by
  obtain ⟨table, e₁, htable, h₁⟩ := bind_eq_ok.mp h
  obtain ⟨log, e₂, hlog, h₂⟩ := bind_eq_ok.mp h₁
  have hopens := StorageNodeEngine.openTable_opens db tbl e
  have hopens' := StorageNodeEngine.openVersionLog_opens db tbl e₁
  rw [htable] at hopens
  rw [hlog] at hopens'
  have hc₂ := hopens'.keepsCounted (hopens.keepsCounted hc)
  unfold StorageNodeEngine.onVersionLog at h₂
  split at h₂
  case h_1 stored hfile =>
    have hread := congrArg Prod.fst h₂
    simp only [VersionLog.readAll, read_bind] at hread
    split_ifs at hread
    · cases hread
      exact hc₂ log _ hfile
    · cases hread
  case h_2 => cases h₂

theorem loadRecords_keepsCounted :
    Within KeepsCounted (loadRecords db tbl) := by
  refine ((StorageNodeEngine.openTable_opens _ _).mono fun h => h.keepsCounted).bind fun _ => ?_
  refine ((StorageNodeEngine.openVersionLog_opens _ _).mono fun h => h.keepsCounted).bind
    fun log => ?_
  intro e hc
  unfold StorageNodeEngine.onVersionLog
  split
  case h_1 records hfile =>
    rw [VersionLog.readAll_snd]
    exact hc.write log (hc log _ hfile)
  case h_2 => exact hc

theorem revertTableToTimestamp_keepsCounted (timestampMs : ℤ) :
    Within KeepsCounted (revertTableToTimestamp db tbl timestampMs) := by
  intro e hc
  have hload := loadRecords_keepsCounted db tbl e hc
  unfold revertTableToTimestamp
  rcases hrecords : loadRecords db tbl e with ⟨s | records, e₁⟩
  · rw [hrecords] at hload
    rw [bind_error hrecords]
    exact hload
  · rw [hrecords] at hload
    rw [bind_ok hrecords]
    refine applyInverseRecords_keepsCounted db tbl (fun record hrecord => ?_) e₁ hload
    have hmem := List.mem_of_mem_filter (List.mem_reverse.mp hrecord)
    exact loadRecords_counted hc hrecords record hmem

end RevertService

end CourseDb

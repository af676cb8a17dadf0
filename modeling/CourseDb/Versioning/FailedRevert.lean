import CourseDb.Runtime.Atomicity

/-! # Reverts that fail

A revert undoes the records one by one and stops at the first one that cannot be
undone; what it has undone before stays undone. A failed revert changes nothing
if the records before the one that fails are updates which are already undone,
and that one fails before its first change.
-/

namespace CourseDb

open Fallible (bind_ok bind_error bind_apply)

variable {s : Status}

namespace StorageNodeEngine

variable {db tbl : ByteString} {table : OpenTableState} {e e' : StorageNodeEngine}
  {rid file : ℕ} {tuple : Tuple} {heap heap' : Heap}

theorem FirstKeyRefused.congr {desc : TableDescriptor} {rowRefused rowRefused' : Prop}
    {indexes : List IndexDescriptor} (h : FirstKeyRefused desc tuple rowRefused e indexes)
    (hrow : rowRefused → rowRefused') (hopen : e'.openedIndexes = e.openedIndexes)
    (hfiles : ∀ {file x}, e'.disk.files file = some (.index x) →
      e.disk.files file = some (.index x)) :
    FirstKeyRefused desc tuple rowRefused' e' indexes := by
  induction indexes with
  | nil => exact hrow h
  | cons index indexes ih =>
    unfold FirstKeyRefused at h ⊢
    rcases hextract : extractIndexKey desc index tuple with s | key
    · trivial
    · rw [hextract] at h
      dsimp only at h ⊢
      split_ifs at h ⊢ with hnull
      · exact ih h
      · intro file x hname hfile
        rw [hopen] at hname
        exact h file x hname (hfiles hfile)

theorem ensureMissing_of_error (hfile : e.disk.files file = some (.table heap))
    (hget : TableStorage.get rid heap = (.error s, heap)) :
    ensureMissing file rid e = if s.code ≠ .kNotFound then (.error s, e) else (.ok (), e) := by
  unfold ensureMissing
  rw [onTable_of_same hfile hget]

theorem restoreInternal_refused (hm : Mounted db tbl table e)
    (hfile : e.disk.files table.file = some (.table heap))
    (h : (∃ row, (TableStorage.get rid heap).1 = .ok row) ∨
      ∃ s, (TableStorage.restore table.descriptor.schema rid tuple heap).1 = .error s)
    (record : Bool) :
    ∃ s e₁, restoreInternal db tbl rid tuple record e = (.error s, e₁) ∧ Keeps e e₁ := by
  unfold restoreInternal
  rw [bind_ok hm.openForChange]
  rcases TableStorage.get_cases rid heap with ⟨s, hget⟩ | ⟨row, -, -, hget⟩
  · have hmissing := ensureMissing_of_error hfile hget
    split_ifs at hmissing with hcode
    · exact ⟨s, e, bind_error hmissing, refl e⟩
    · rw [bind_ok hmissing]
      rcases TableStorage.restore_cases table.descriptor.schema rid tuple heap with
        ⟨s', heap', hrefused, hrows, hsize⟩ | ⟨prepared, heap', -, hok, -⟩
      · exact ⟨s', _, bind_error (onTable_storeTable hfile hrefused),
          storeTable_keeps hfile hrows hsize⟩
      · rw [hget, hok] at h
        rcases h with ⟨row, hrow⟩ | ⟨s', hs'⟩
        · cases hrow
        · cases hs'
  · obtain ⟨s, hmissing⟩ : ∃ s, ensureMissing table.file rid e = (.error s, e) := by
      unfold ensureMissing
      rw [onTable_of_same hfile hget]
      exact ⟨_, rfl⟩
    exact ⟨s, e, bind_error hmissing, refl e⟩

theorem updateInternal_silent (hm : Mounted db tbl table e)
    (hfile : e.disk.files table.file = some (.table heap))
    (h : (TableStorage.update table.descriptor.schema rid tuple heap).2.rows = heap.rows) :
    (∃ s heap', updateInternal db tbl rid tuple false e =
        (.error s, e.storeTable table.file heap') ∧ heap'.rows = heap.rows ∧
        heap'.pageSize = heap.pageSize) ∨
      ∃ heap', updateInternal db tbl rid tuple false e =
          (.ok (), e.storeTable table.file heap') ∧ heap'.rows = heap.rows ∧
        heap'.pageSize = heap.pageSize ∧
        (TableStorage.update table.descriptor.schema rid tuple heap).1 = .ok () := by
  have hsame : e.storeTable table.file heap = e := by
    rw [storeTable, FileSystem.write_self hfile]
  unfold updateInternal
  rw [bind_ok hm.openForChange]
  rcases TableStorage.get_cases rid heap with ⟨s, hget⟩ | ⟨row, -, -, hget⟩
  · left
    rw [bind_error (onTable_of_same hfile hget)]
    exact ⟨s, heap, by rw [hsame], rfl, rfl⟩
  · rw [bind_ok (onTable_of_same hfile hget)]
    rcases TableStorage.update_cases table.descriptor.schema rid tuple heap with
      ⟨s, hrefused⟩ | ⟨prepared, row', heap', -, -, -, hok, -, hsize⟩
    · left
      rw [bind_error (onTable_of_same hfile hrefused)]
      exact ⟨s, heap, by rw [hsame], rfl, rfl⟩
    · rw [hok] at h
      have hfile' : (e.storeTable table.file heap').disk.files table.file = some (.table heap') :=
        FileSystem.write_file_self hfile
      rw [bind_ok (onTable_storeTable hfile hok), bind_ok (onTable_of_same
        hfile' (TableStorage.get_congr h hget))]
      have hindexes := updateIndexes_self table.descriptor rid table.descriptor.indexes row.tuple
        (e.storeTable table.file heap')
      rcases hupdate : updateIndexes table.descriptor row.tuple row.tuple rid
        table.descriptor.indexes (e.storeTable table.file heap') with ⟨s | ⟨⟩, e₂⟩
      · rw [hupdate] at hindexes
        cases hindexes
        exact .inl ⟨s, heap', bind_error hupdate, h, hsize⟩
      · rw [hupdate] at hindexes
        cases hindexes
        exact .inr ⟨heap', bind_ok hupdate, h, hsize, by rw [hok]⟩

theorem internal_of_no_table (rid : ℕ) (tuple : Tuple)
    (h : ∀ table e' heap, openForChange db tbl e = (.ok table, e') →
      e'.disk.files table.file ≠ some (.table heap)) (record : Bool) :
    (∃ s e₁, updateInternal db tbl rid tuple record e = (.error s, e₁) ∧ Opens e e₁) ∧
      (∃ s e₁, deleteInternal db tbl rid record e = (.error s, e₁) ∧ Opens e e₁) ∧
      ∃ s e₁, restoreInternal db tbl rid tuple record e = (.error s, e₁) ∧
        Opens e e₁ := by
  have hopens := openForChange_opens db tbl e
  unfold updateInternal deleteInternal restoreInternal
  rcases hopen : openForChange db tbl e with ⟨s | table, e'⟩
  · rw [hopen] at hopens
    rw [bind_error hopen, bind_error hopen, bind_error hopen]
    exact ⟨⟨s, e', rfl, hopens⟩, ⟨s, e', rfl, hopens⟩, s, e', rfl, hopens⟩
  · rw [hopen] at hopens
    have hread := onTable_of_no_table (h table e' · hopen) (TableStorage.get rid)
    have hmissing : ensureMissing table.file rid e' = (.error cannotRead, e') := by
      unfold ensureMissing
      rw [hread]
      rfl
    rw [bind_ok hopen, bind_ok hopen, bind_ok hopen,
      bind_error hread, bind_error hread, bind_error hmissing]
    exact ⟨⟨_, e', rfl, hopens⟩, ⟨_, e', rfl, hopens⟩, _, e', rfl, hopens⟩

theorem internal_after_open (rid : ℕ) (tuple : Tuple)
    (h : openForChange db tbl e = (.ok table, e'))
    (record : Bool) :
    updateInternal db tbl rid tuple record e =
        updateInternal db tbl rid tuple record e' ∧
      deleteInternal db tbl rid record e =
        deleteInternal db tbl rid record e' ∧
      restoreInternal db tbl rid tuple record e =
        restoreInternal db tbl rid tuple record e' := by
  have hm := openForChange_mounts h
  unfold updateInternal deleteInternal restoreInternal
  rw [bind_ok h, bind_ok hm.openForChange, bind_ok h,
    bind_ok hm.openForChange, bind_ok h,
    bind_ok hm.openForChange]
  exact ⟨rfl, rfl, rfl⟩

end StorageNodeEngine

namespace RevertService

open StorageNodeEngine (Keeps Opens Mounted FirstKeyRefused openForChange)

variable {timestampMs : ℤ}

section Conditions

variable (dbName tableName : ByteString)

/-- The records, in the order in which they are undone, begin with updates whose rows have been
taken back already, and the next one cannot be undone. -/
def UndoChangesNothing (table : OpenTableState) (e : StorageNodeEngine) (heap : Heap) :
    List VersionRecord → Prop
  | [] => True
  | record :: records =>
    match record.op with
    | .kInsert =>
      ∀ row, (TableStorage.get record.rid heap).1 = .ok row →
        FirstKeyRefused table.descriptor row.tuple
          (∃ s, (TableStorage.delete record.rid heap).1 = .error s) e table.descriptor.indexes
    | .kDelete =>
      (∃ row, (TableStorage.get record.rid heap).1 = .ok row) ∨
        ∃ s, (TableStorage.restore table.descriptor.schema record.rid record.before heap).1 =
          .error s
    | .kUpdate =>
      (∃ s, (TableStorage.update table.descriptor.schema record.rid record.before heap).1 =
          .error s) ∨
        (TableStorage.update table.descriptor.schema record.rid record.before heap).2.rows =
            heap.rows ∧
          UndoChangesNothing table e heap records

/-- If the revert gets to the table, undoing the records changes nothing. -/
def RevertChangesNothing (timestampMs : ℤ) (e : StorageNodeEngine) : Prop :=
  ∀ records e₁ table e₂ heap, loadRecords dbName tableName e = (.ok records, e₁) →
    openForChange dbName tableName e₁ = (.ok table, e₂) →
    e₂.disk.files table.file = some (.table heap) →
    UndoChangesNothing table e₂ heap
      (collectRollbackRecords tableName records timestampMs).reverse

end Conditions

section Undo

variable {db tbl : ByteString} {table : OpenTableState} {e e' : StorageNodeEngine}
  {heap heap' : Heap} {records : List VersionRecord}

theorem UndoChangesNothing.store (h : UndoChangesNothing table e heap records)
    (hfile : e.disk.files table.file = some (.table heap)) (hrows : heap'.rows = heap.rows)
    (hsize : heap'.pageSize = heap.pageSize) :
    UndoChangesNothing table (e.storeTable table.file heap') heap' records := by
  induction records with
  | nil => trivial
  | cons record records ih =>
    unfold UndoChangesNothing at h ⊢
    have hget : (TableStorage.get record.rid heap').1 = (TableStorage.get record.rid heap).1 :=
      Heap.get_result_congr record.rid hrows
    cases hop : record.op with
    | kInsert =>
      simp only [hop] at h ⊢
      intro row hrow
      rw [hget] at hrow
      refine (h row hrow).congr (fun ⟨s, hs⟩ => ⟨s, ?_⟩) rfl
        (StorageNodeEngine.storeTable_files_index hfile)
      exact (Heap.delete_congr record.rid hrows hsize).trans hs
    | kDelete =>
      simp only [hop] at h ⊢
      rw [hget, TableStorage.restore_congr _ _ _ hrows hsize]
      exact h
    | kUpdate =>
      simp only [hop] at h ⊢
      obtain ⟨hresult, hafter⟩ :=
        TableStorage.update_congr table.descriptor.schema record.rid record.before hrows hsize
      rw [hresult, hafter, hrows]
      exact h.imp_right fun ⟨hidle, hrest⟩ => ⟨hidle, ih hrest⟩

theorem applyInverseRecords_keeps (hm : Mounted db tbl table e)
    (hfile : e.disk.files table.file = some (.table heap))
    (h : UndoChangesNothing table e heap records) :
    Keeps e (applyInverseRecords db tbl records e).2 := by
  induction records generalizing e heap with
  | nil => exact refl e
  | cons record records ih =>
    unfold applyInverseRecords applyInverseRecord
    unfold UndoChangesNothing at h
    cases hop : record.op with
    | kInsert =>
      simp only [hop] at h ⊢
      have hrefused : StorageNodeEngine.DeleteRefused db tbl record.rid e := by
        intro table' e' heap' row hopen hfile' hrow
        rw [hm.openForChange] at hopen
        cases hopen
        rw [hfile] at hfile'
        cases hfile'
        exact h row hrow
      obtain ⟨s, herr, hopens⟩ := StorageNodeEngine.deleteInternal_refused hrefused false
      rw [bind_error (Prod.ext herr rfl)]
      exact hopens.keeps
    | kDelete =>
      simp only [hop] at h ⊢
      obtain ⟨s, e₁, herr, hkeeps⟩ := StorageNodeEngine.restoreInternal_refused hm hfile h false
      rw [bind_error herr]
      exact hkeeps
    | kUpdate =>
      simp only [hop] at h ⊢
      have hsilent : (TableStorage.update table.descriptor.schema record.rid record.before
          heap).2.rows = heap.rows :=
        h.elim (fun ⟨s, hs⟩ => TableStorage.update_rows_of_error hs) And.left
      rcases StorageNodeEngine.updateInternal_silent hm hfile hsilent with
        ⟨s, heap', herr, hrows, hsize⟩ | ⟨heap', hok, hrows, hsize, hstored⟩
      · rw [bind_error herr]
        exact StorageNodeEngine.storeTable_keeps hfile hrows hsize
      · rw [bind_ok hok]
        rcases h with ⟨s, hs⟩ | ⟨-, hrest⟩
        · rw [hstored] at hs
          cases hs
        · exact Trans.trans (StorageNodeEngine.storeTable_keeps hfile hrows hsize)
            (ih (hm.of_sameTables (StorageNodeEngine.storeTable_sameTables e _ _))
              (FileSystem.write_file_self hfile) (hrest.store hfile hrows hsize))

theorem applyInverseRecord_of_no_table (record : VersionRecord)
    (h : ∀ table e' heap, openForChange db tbl e = (.ok table, e') →
      e'.disk.files table.file ≠ some (.table heap)) :
    ∃ s e₁, applyInverseRecord db tbl record e = (.error s, e₁) ∧ Opens e e₁ := by
  obtain ⟨hupdate, hdelete, hrestore⟩ :=
    StorageNodeEngine.internal_of_no_table record.rid record.before h false
  unfold applyInverseRecord
  cases record.op with
  | kInsert => exact hdelete
  | kUpdate => exact hupdate
  | kDelete => exact hrestore

theorem applyInverseRecord_after_open (record : VersionRecord)
    (h : openForChange db tbl e = (.ok table, e')) :
    applyInverseRecord db tbl record e =
      applyInverseRecord db tbl record e' := by
  obtain ⟨hupdate, hdelete, hrestore⟩ :=
    StorageNodeEngine.internal_after_open record.rid record.before h false
  unfold applyInverseRecord
  cases record.op with
  | kInsert => exact hdelete
  | kUpdate => exact hupdate
  | kDelete => exact hrestore

theorem loadRecords_keeps (db tbl : ByteString) (e : StorageNodeEngine) :
    Keeps e (loadRecords db tbl e).2 := by
  unfold loadRecords
  refine Fallible.Within.bind ((StorageNodeEngine.openTable_opens _ _).mono Opens.keeps)
    (fun _ => ?_) e
  exact ((StorageNodeEngine.openVersionLog_opens _ _).mono Opens.keeps).bind fun log =>
    StorageNodeEngine.onVersionLog_keeps log _

theorem revertTableToTimestamp_keeps (h : RevertChangesNothing db tbl timestampMs e) :
    Keeps e (revertTableToTimestamp db tbl timestampMs e).2 := by
  have hload := loadRecords_keeps db tbl e
  unfold revertTableToTimestamp
  rcases hrecords : loadRecords db tbl e with ⟨s | records, e₁⟩
  · rw [hrecords] at hload
    rw [bind_error hrecords]
    exact hload
  · rw [hrecords] at hload
    rw [bind_ok hrecords]
    refine IsTrans.trans _ _ _ hload ?_
    have hundo := h records e₁
    generalize (collectRollbackRecords tbl records timestampMs).reverse = undone at hundo ⊢
    cases undone with
    | nil => exact refl e₁
    | cons record undone =>
      unfold applyInverseRecords
      by_cases htable : ∃ table e₂ heap, openForChange db tbl e₁ = (.ok table, e₂) ∧
          e₂.disk.files table.file = some (.table heap)
      · obtain ⟨table, e₂, heap, hopen, hfile⟩ := htable
        have hopens := (StorageNodeEngine.openForChange_opens db tbl).of_eq hopen
        have hkeeps := applyInverseRecords_keeps (StorageNodeEngine.openForChange_mounts hopen)
          hfile (hundo table e₂ heap hrecords hopen hfile)
        unfold applyInverseRecords at hkeeps
        rw [bind_apply, applyInverseRecord_after_open record hopen, ← bind_apply]
        exact Trans.trans hopens.keeps hkeeps
      · push Not at htable
        obtain ⟨s, e₂, herr, hopens⟩ := applyInverseRecord_of_no_table record htable
        rw [bind_error herr]
        exact hopens.keeps

end Undo

section Runs

open StorageNodeEngine (RowCall)

inductive Event where
  | call (dbName tableName : ByteString) (call : RowCall)
  | revert (dbName tableName : ByteString) (timestampMs : ℤ)

def step (e : StorageNodeEngine) : Event → Except Status Unit × StorageNodeEngine
  | .call dbName tableName call => call.run dbName tableName e
  | .revert dbName tableName timestampMs => revertTableToTimestamp dbName tableName timestampMs e

/-- A revert that fails leaves every row and every key as it was. -/
def FailedRevertKeeps (e : StorageNodeEngine) : Event → Prop
  | .call _ _ _ => True
  | .revert dbName tableName timestampMs =>
    ∀ s, (revertTableToTimestamp dbName tableName timestampMs e).1 = .error s →
      e.disk.SameContents (revertTableToTimestamp dbName tableName timestampMs e).2.disk

/-- A revert that fails meets only records that change nothing when they are undone. -/
def FailsEarly (e : StorageNodeEngine) : Event → Prop
  | .call _ _ _ => True
  | .revert dbName tableName timestampMs =>
    ∀ s, (revertTableToTimestamp dbName tableName timestampMs e).1 = .error s →
      RevertChangesNothing dbName tableName timestampMs e

/-- After every history, a revert that fails changes nothing if it fails early. -/
theorem failed_reverts_keep (events : List Event) (e : StorageNodeEngine) (event : Event)
    (h : FailsEarly (finalState step e events) event) :
    FailedRevertKeeps (finalState step e events) event := by
  cases event with
  | call dbName tableName call => trivial
  | revert dbName tableName timestampMs =>
    intro s hs
    exact (revertTableToTimestamp_keeps (h s hs)).disk

section Examples

variable {e : StorageNodeEngine}

def numbers : TableDescriptor :=
  { databaseName := ascii "d", tableName := ascii "t", dataFile := [], indexDir := []
    schema := [{ name := ascii "id" }], indexes := [] }

/-- The engine with the empty table, and a clock that runs. -/
def withNumbers : StorageNodeEngine :=
  Prod.snd <| (show StorageNodeEngine.Action Unit from do
    StorageNodeEngine.start
    StorageNodeEngine.createDatabase (ascii "d")
    StorageNodeEngine.createTable numbers) (.new {} .empty fun n => n + 1)

def insertNumber (n : Int64) : Event := .call (ascii "d") (ascii "t") (.insert [.int n])

def revertTo (timestampMs : ℤ) : Event := .revert (ascii "d") (ascii "t") timestampMs

theorem FailedRevertKeeps.of_revertTo (h : FailedRevertKeeps e (revertTo timestampMs))
    (hs : (step e (revertTo timestampMs)).1 = .error s) :
    e.disk.SameContents (step e (revertTo timestampMs)).2.disk := h s hs

/-- The row that the revert finds under an id. -/
def rowToUndo (rid : ℕ) : StorageNodeEngine.Action Row := do
  let _ ← loadRecords (ascii "d") (ascii "t")
  let table ← openForChange (ascii "d") (ascii "t")
  StorageNodeEngine.onTable table.file (TableStorage.get rid)

/-- A single insertion that is undone already cannot be undone again. -/
theorem failsEarly_of_undone (record : VersionRecord) (hop : record.op = .kInsert)
    (hload : (loadRecords (ascii "d") (ascii "t") e).1 = .ok [record])
    (hrecords : (collectRollbackRecords (ascii "t") [record] timestampMs).reverse = [record])
    (hrow : (rowToUndo record.rid e).1 = .error s) : FailsEarly e (revertTo timestampMs) := by
  intro _ _ records' e₁ table e₂ heap hload' hopen hfile
  rw [hload'] at hload
  cases hload
  rw [hrecords, UndoChangesNothing, hop]
  intro row hget
  rw [rowToUndo, bind_ok hload', bind_ok hopen,
    StorageNodeEngine.onTable_of_file hfile, hget] at hrow
  cases hrow

def history : List Event := [insertNumber 1, insertNumber 2, revertTo 1, insertNumber 3]

/-- The second revert fails, and changes nothing. -/
theorem failed_reverts_keep_twice :
    (trace step withNumbers [insertNumber 1, revertTo 0, revertTo 0]).map Prod.snd =
        [.ok (), .ok (), .error RowStore.rowIsDeleted] ∧
      FailedRevertKeeps (finalState step withNumbers [insertNumber 1, revertTo 0])
        (revertTo 0) := by
  refine ⟨by decide +kernel, failed_reverts_keep _ _ _ ?_⟩
  exact failsEarly_of_undone (s := RowStore.rowIsDeleted)
    ⟨1, ascii "t", 0, .kInsert, [], [.int 1]⟩ rfl (by decide +kernel) (by decide +kernel)
    (by decide +kernel)

/-- The last row is undone and stays so, although the revert fails at the second row,
which an earlier revert had undone. -/
theorem failed_revert_loses_row :
    (trace step withNumbers history).map Prod.snd = [.ok (), .ok (), .ok (), .ok ()] ∧
      (finalState step withNumbers history).disk.liveRows 1 =
        [⟨0, [.int 1], false⟩, ⟨2, [.int 3], false⟩] ∧
      (step (finalState step withNumbers history) (revertTo 0)).1 =
        .error RowStore.rowIsDeleted ∧
      (step (finalState step withNumbers history) (revertTo 0)).2.disk.liveRows 1 =
        [⟨0, [.int 1], false⟩] ∧
      ¬ FailedRevertKeeps (finalState step withNumbers history) (revertTo 0) := by
  have hbefore : (finalState step withNumbers history).disk.liveRows 1 =
      [⟨0, [.int 1], false⟩, ⟨2, [.int 3], false⟩] := by decide +kernel
  have hfailed : (step (finalState step withNumbers history) (revertTo 0)).1 =
      .error RowStore.rowIsDeleted := by decide +kernel
  have hafter : (step (finalState step withNumbers history) (revertTo 0)).2.disk.liveRows 1 =
      [⟨0, [.int 1], false⟩] := by decide +kernel
  refine ⟨by decide +kernel, hbefore, hfailed, hafter, fun h => ?_⟩
  have hsame := (h.of_revertTo hfailed).liveRows 1
  rw [hbefore, hafter] at hsame
  cases hsame

end Examples

end Runs

end RevertService

end CourseDb

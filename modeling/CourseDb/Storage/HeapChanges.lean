import CourseDb.Storage.TableStorage

/-! # What the calls of a table storage change

Nothing is assumed of the rows here. A call that fails leaves the table as it
was; one that succeeds changes one row, or adds one.
-/

namespace CourseDb

open Fallible (bind_ok bind_error bind_apply pure_apply fail_apply)

variable {r : Except Status Row} {row : Row}

namespace Heap

variable {h h' : Heap} {rid : ℕ} {tuple : Tuple}

theorem rewriteAllRows_cases (rows : List Row) (h : Heap) :
    (∃ s, rewriteAllRows rows h = (.error s, h)) ∨
      ∃ h', rewriteAllRows rows h = (.ok (), h') ∧ h'.rows = rows ∧ h'.pageSize = h.pageSize := by
  unfold rewriteAllRows
  rcases hpack : RowStore.packRows h.pageSize rows [] [] 0 with s | batches
  · exact .inl ⟨s, rfl⟩
  · obtain ⟨hflat, -⟩ := packRows_ok rows usedBytes_nil.symm (by simp) (by simp) hpack
    exact .inr ⟨_, rfl, by simpa [Heap.rows] using hflat, rfl⟩

theorem rewriteAllRows_congr (rows : List Row) (hrows : h'.rows = h.rows)
    (hsize : h'.pageSize = h.pageSize) :
    (rewriteAllRows rows h').1 = (rewriteAllRows rows h).1 ∧
      (rewriteAllRows rows h').2.rows = (rewriteAllRows rows h).2.rows := by
  unfold rewriteAllRows
  rw [hsize]
  rcases hpack : RowStore.packRows h.pageSize rows [] [] 0 with s | batches
  · exact ⟨rfl, hrows⟩
  · exact ⟨rfl, by simp [Heap.rows]⟩

theorem loadAllRows_cases (h : Heap) :
    (∃ s, loadAllRows h = (.error s, h)) ∨ loadAllRows h = (.ok h.rows, h) := by
  unfold loadAllRows
  rcases hread : readRows h.rows with s | rows
  · exact .inl ⟨s, rfl⟩
  · exact .inr (by rw [readRows_ok hread])

theorem loadAllRows_congr (hrows : h'.rows = h.rows) :
    loadAllRows h' = ((loadAllRows h).1, h') := by
  rw [loadAllRows, loadAllRows, hrows]

theorem get_of_find (hload : loadAllRows h = (.ok h.rows, h))
    (hfind : findRow rid h.rows = some row) (hlive : row.deleted = false) :
    get rid h = (.ok row, h) := by
  unfold get getIncludingDeleted
  rw [bind_apply, bind_ok hload, hfind]
  simp [hlive]

theorem update_cases (rid : ℕ) (tuple : Tuple) (h : Heap) :
    (∃ s, update rid tuple h = (.error s, h)) ∨
      ∃ row h', findRow rid h.rows = some row ∧ row.deleted = false ∧
        get rid h = (.ok row, h) ∧ update rid tuple h = (.ok (), h') ∧
        h'.rows = changeRow h.rows rid (fun row => { row with tuple }) ∧
        h'.pageSize = h.pageSize := by
  unfold update
  rcases loadAllRows_cases h with ⟨s, hload⟩ | hload
  · exact .inl ⟨s, bind_error hload⟩
  · rw [bind_ok hload]
    rcases hfind : findRow rid h.rows with _ | row
    · exact .inl ⟨_, rfl⟩
    · dsimp only
      split_ifs with hdel
      · exact .inl ⟨_, rfl⟩
      · rcases rewriteAllRows_cases (changeRow h.rows rid fun row => { row with tuple }) h with
          ⟨s, herr⟩ | ⟨h', hok, hrows, hsize⟩
        · exact .inl ⟨s, herr⟩
        · have hlive : row.deleted = false := by simpa using hdel
          exact .inr ⟨row, h', rfl, hlive, get_of_find hload hfind hlive, hok, hrows, hsize⟩

/-- How the rows are spread over the pages does not matter. -/
theorem update_congr (rid : ℕ) (tuple : Tuple) (hrows : h'.rows = h.rows)
    (hsize : h'.pageSize = h.pageSize) :
    (update rid tuple h').1 = (update rid tuple h).1 ∧
      (update rid tuple h').2.rows = (update rid tuple h).2.rows := by
  have hload := loadAllRows_congr hrows
  unfold update
  rcases loadAllRows_cases h with ⟨s, herr⟩ | hok
  · rw [herr] at hload
    rw [bind_error hload, bind_error herr]
    exact ⟨rfl, hrows⟩
  · rw [hok] at hload
    rw [bind_ok hload, bind_ok hok]
    rcases hfind : findRow rid h.rows with _ | row
    · exact ⟨rfl, hrows⟩
    · dsimp only
      split_ifs
      · exact ⟨rfl, hrows⟩
      · exact rewriteAllRows_congr _ hrows hsize

theorem get_cases (rid : ℕ) (h : Heap) :
    (∃ s, get rid h = (.error s, h)) ∨
      ∃ row, findRow rid h.rows = some row ∧ row.deleted = false ∧
        get rid h = (.ok row, h) := by
  rcases loadAllRows_cases h with ⟨s, hload⟩ | hload
  · exact .inl ⟨s, bind_error (bind_error hload)⟩
  · rcases hfind : findRow rid h.rows with _ | row
    · left
      unfold get getIncludingDeleted
      rw [bind_apply, bind_ok hload, hfind]
      exact ⟨_, rfl⟩
    · by_cases hdel : row.deleted
      · left
        unfold get getIncludingDeleted
        rw [bind_apply, bind_ok hload, hfind]
        exact ⟨RowStore.rowIsDeleted, by simp [hdel]⟩
      · have hlive : row.deleted = false := by simpa using hdel
        exact .inr ⟨row, rfl, hlive, get_of_find hload hfind hlive⟩

theorem delete_cases (hget : get rid h = (.ok row, h)) :
    (∃ s, delete rid h = (.error s, h)) ∨
      ∃ h', findRow rid h.rows = some row ∧ row.deleted = false ∧
        delete rid h = (.ok (), h') ∧
        h'.rows = changeRow h.rows rid (fun row => { row with deleted := true }) ∧
        h'.pageSize = h.pageSize := by
  rcases get_cases rid h with ⟨s, herr⟩ | ⟨row', hfind, hlive, hget'⟩
  · rw [herr] at hget
    cases hget
  · rw [hget'] at hget
    cases hget
    unfold delete
    rcases loadAllRows_cases h with ⟨s, hload⟩ | hload
    · exact .inl ⟨s, bind_error hload⟩
    · rw [bind_ok hload, hfind]
      dsimp only
      rw [if_neg (by simp [hlive])]
      rcases rewriteAllRows_cases (changeRow h.rows rid fun row => { row with deleted := true }) h
        with ⟨s, herr⟩ | ⟨h', hok, hrows, hsize⟩
      · exact .inl ⟨s, herr⟩
      · exact .inr ⟨h', rfl, hlive, hok, hrows, hsize⟩

theorem get_congr (hrows : h'.rows = h.rows) (hget : get rid h = (r, h)) :
    get rid h' = (r, h') := by
  have hload := loadAllRows_congr hrows
  unfold get getIncludingDeleted at hget ⊢
  rcases loadAllRows_cases h with ⟨s, herr⟩ | hok
  · rw [herr] at hload
    rw [bind_error (bind_error herr)] at hget
    rw [bind_error (bind_error hload)]
    cases hget
    rfl
  · rw [hok] at hload
    rw [bind_apply, bind_ok hok] at hget
    rw [bind_apply, bind_ok hload]
    rcases hfind : findRow rid h.rows with _ | row
    · rw [hfind] at hget
      cases hget
      rfl
    · rw [hfind] at hget
      by_cases hdel : row.deleted
      · simp only [pure_apply, hdel, if_true, fail_apply] at hget ⊢
        cases hget
        rfl
      · simp only [pure_apply, hdel] at hget ⊢
        cases hget
        rfl

theorem get_result_congr (rid : ℕ) (hrows : h'.rows = h.rows) : (get rid h').1 = (get rid h).1 := by
  rcases get_cases rid h with ⟨s, hget⟩ | ⟨row, -, -, hget⟩
  · rw [get_congr hrows hget, hget]
  · rw [get_congr hrows hget, hget]

theorem delete_congr (rid : ℕ) (hrows : h'.rows = h.rows) (hsize : h'.pageSize = h.pageSize) :
    (delete rid h').1 = (delete rid h).1 := by
  have hload := loadAllRows_congr hrows
  unfold delete
  rcases loadAllRows_cases h with ⟨s, herr⟩ | hok
  · rw [herr] at hload
    rw [bind_error hload, bind_error herr]
  · rw [hok] at hload
    rw [bind_ok hload, bind_ok hok]
    rcases hfind : findRow rid h.rows with _ | row
    · rfl
    · dsimp only
      split_ifs
      · rfl
      · exact (rewriteAllRows_congr _ hrows hsize).1

theorem restore_of_load (hload : loadAllRows h = (.ok h.rows, h)) :
    restore row h = rewriteAllRows (restoreInto h.rows row) (h.raiseNextRowId row.rid) := by
  unfold restore
  rw [bind_ok hload]
  rfl

/-- A row that cannot be restored is refused before the rows are changed. -/
theorem restore_cases (row : Row) (h : Heap) :
    (∃ s h', restore row h = (.error s, h') ∧ h'.rows = h.rows ∧ h'.pageSize = h.pageSize) ∨
      ∃ h', restore row h = (.ok (), h') ∧ h'.rows = restoreInto h.rows row ∧
        h'.pageSize = h.pageSize := by
  rcases loadAllRows_cases h with ⟨s, hload⟩ | hload
  · exact .inl ⟨s, h, bind_error hload, rfl, rfl⟩
  · rw [restore_of_load hload]
    rcases rewriteAllRows_cases (restoreInto h.rows row) (h.raiseNextRowId row.rid) with
      ⟨s, hrewrite⟩ | ⟨h', hrewrite, hrows, hsize⟩
    · exact .inl ⟨s, _, hrewrite, rfl, rfl⟩
    · exact .inr ⟨h', hrewrite, hrows, hsize⟩

theorem restore_congr (row : Row) (hrows : h'.rows = h.rows) (hsize : h'.pageSize = h.pageSize) :
    (restore row h').1 = (restore row h).1 := by
  have hload := loadAllRows_congr hrows
  rcases loadAllRows_cases h with ⟨s, herr⟩ | hok
  · rw [herr] at hload
    unfold restore
    rw [bind_error hload, bind_error herr]
  · rw [hok, ← hrows] at hload
    rw [restore_of_load hload, restore_of_load hok, hrows]
    have hraised : (h'.raiseNextRowId row.rid).rows = (h.raiseNextRowId row.rid).rows := hrows
    exact (rewriteAllRows_congr _ hraised hsize).1

theorem scan_cases (h : Heap) :
    (∃ s, scan h = (.error s, h)) ∨ scan h = (.ok (live h.rows), h) := by
  unfold scan
  rcases loadAllRows_cases h with ⟨s, hload⟩ | hload
  · exact .inl ⟨s, bind_error hload⟩
  · exact .inr (bind_ok hload)

theorem insert_cases (tuple : Tuple) (h : Heap) :
    (∃ s, insert tuple h = (.error s, h)) ∨
      ∃ h', insert tuple h = (.ok h.nextRowId, h') ∧ h'.rows.Perm (h.newRow tuple :: h.rows) ∧
        h'.pageSize = h.pageSize := by
  unfold insert
  split_ifs
  · exact .inl ⟨_, rfl⟩
  · rcases hfind : h.findPage (entrySize (h.newRow tuple)) with _ | ordinal
    · have hord : h.pages.length < h.addPage.pages.length := by simp [addPage]
      have hperm := addRow_rows_perm hord (h.newRow tuple)
      rw [addPage_rows] at hperm
      exact .inr ⟨_, rfl, hperm, rfl⟩
    · obtain ⟨rows, hpage, -⟩ := RowStore.findPage_some hfind
      obtain ⟨hord, -⟩ := List.getElem?_eq_some_iff.mp hpage
      dsimp only
      rcases readRows (h.pages[ordinal]?.getD []) with s | page
      · exact .inl ⟨s, rfl⟩
      · exact .inr ⟨_, rfl, addRow_rows_perm hord _, rfl⟩

section Live

variable {rows : List Row} {row : Row}

/-- A change of a tuple that cannot be seen is none. -/
theorem live_changeRow_tuple (hfind : findRow rid rows = some row)
    (hlive : row.deleted = false)
    (h : live (changeRow rows rid fun row => { row with tuple }) = live rows) :
    changeRow rows rid (fun row => { row with tuple }) = rows := by
  induction rows with
  | nil => rfl
  | cons r rows ih =>
    rw [changeRow_cons] at h ⊢
    by_cases hr : r.rid = rid
    · obtain rfl : r = row := by simpa [hr] using hfind
      simpa [hr, live, hlive] using h
    · rw [if_neg hr] at h ⊢
      have hrest : live (changeRow rows rid fun row => { row with tuple }) = live rows := by
        unfold live at h ⊢
        by_cases hd : r.deleted <;> simpa [hd] using h
      rw [ih (by simpa [hr] using hfind) hrest]

theorem length_live_delete (hfind : findRow rid rows = some row)
    (hlive : row.deleted = false) :
    (live (changeRow rows rid fun row => { row with deleted := true })).length + 1 =
      (live rows).length := by
  induction rows with
  | nil => simp at hfind
  | cons r rows ih =>
    rw [changeRow_cons]
    by_cases hr : r.rid = rid
    · obtain rfl : r = row := by simpa [hr] using hfind
      simp [hr, live, hlive]
    · rw [if_neg hr]
      have hrest := ih (by simpa [hr] using hfind)
      unfold live at hrest ⊢
      by_cases hd : r.deleted
      · simpa [hd] using hrest
      · simp only [List.filter_cons, hd, Bool.not_false, if_true, List.length_cons]
        omega

theorem length_live_insert {rows' : List Row} (hperm : rows'.Perm (row :: rows))
    (hlive : row.deleted = false) : (live rows').length = (live rows).length + 1 := by
  have := (hperm.filter fun row => !row.deleted).length_eq
  simpa [live, hlive] using this

end Live

end Heap

namespace TableStorage

variable {schema : TableSchema} {tuple prepared : Tuple} {h h' : Heap} {rid : ℕ}

theorem insert_of_prepared (hprep : prepareTupleForWrite schema tuple = .ok prepared) :
    insert schema tuple h =
      if fitsDevice (Heap.insert prepared h).2 then Heap.insert prepared h
      else (.error PageManager.allocationFailed, h) := by
  unfold insert
  rw [hprep]
  rfl

theorem update_of_prepared (hprep : prepareTupleForWrite schema tuple = .ok prepared) :
    update schema rid tuple h = Heap.update rid prepared h := by
  unfold update
  rw [hprep]
  rfl

theorem insert_cases (schema : TableSchema) (tuple : Tuple) (h : Heap) :
    (∃ s, insert schema tuple h = (.error s, h)) ∨
      ∃ rid row h', insert schema tuple h = (.ok rid, h') ∧ row.deleted = false ∧
        h'.rows.Perm (row :: h.rows) ∧ h'.pageSize = h.pageSize := by
  rcases hprep : prepareTupleForWrite schema tuple with s | prepared
  · left
    unfold insert
    rw [hprep]
    exact ⟨s, rfl⟩
  · rw [insert_of_prepared hprep]
    split_ifs
    · rcases Heap.insert_cases prepared h with hrefused | ⟨h', hok, hperm, hsize⟩
      · exact .inl hrefused
      · exact .inr ⟨_, _, h', hok, rfl, hperm, hsize⟩
    · exact .inl ⟨_, rfl⟩

theorem update_cases (schema : TableSchema) (rid : ℕ) (tuple : Tuple) (h : Heap) :
    (∃ s, update schema rid tuple h = (.error s, h)) ∨
      ∃ prepared row h', findRow rid h.rows = some row ∧ row.deleted = false ∧
        get rid h = (.ok row, h) ∧ update schema rid tuple h = (.ok (), h') ∧
        h'.rows = Heap.changeRow h.rows rid (fun row => { row with tuple := prepared }) ∧
        h'.pageSize = h.pageSize := by
  rcases hprep : prepareTupleForWrite schema tuple with s | prepared
  · left
    unfold update
    rw [hprep]
    exact ⟨s, rfl⟩
  · rw [update_of_prepared hprep]
    rcases Heap.update_cases rid prepared h with hrefused | ⟨row, h', hrest⟩
    · exact .inl hrefused
    · exact .inr ⟨prepared, row, h', hrest⟩

theorem update_rows_of_error {s : Status} (herr : (update schema rid tuple h).1 = .error s) :
    (update schema rid tuple h).2.rows = h.rows := by
  rcases update_cases schema rid tuple h with ⟨s', hrefused⟩ | ⟨_, _, h', -, -, -, hok, -⟩
  · rw [hrefused]
  · rw [hok] at herr
    cases herr

theorem get_cases (rid : ℕ) (h : Heap) :
    (∃ s, get rid h = (.error s, h)) ∨
      ∃ row, findRow rid h.rows = some row ∧ row.deleted = false ∧
        get rid h = (.ok row, h) :=
  Heap.get_cases rid h

theorem get_congr (hrows : h'.rows = h.rows) (hget : get rid h = (r, h)) : get rid h' = (r, h') :=
  Heap.get_congr hrows hget

theorem delete_cases (hget : get rid h = (.ok row, h)) :
    (∃ s, delete rid h = (.error s, h)) ∨
      ∃ h', findRow rid h.rows = some row ∧ row.deleted = false ∧
        delete rid h = (.ok (), h') ∧
        h'.rows = Heap.changeRow h.rows rid (fun row => { row with deleted := true }) ∧
        h'.pageSize = h.pageSize :=
  Heap.delete_cases hget

theorem update_congr (schema : TableSchema) (rid : ℕ) (tuple : Tuple) (hrows : h'.rows = h.rows)
    (hsize : h'.pageSize = h.pageSize) :
    (update schema rid tuple h').1 = (update schema rid tuple h).1 ∧
      (update schema rid tuple h').2.rows = (update schema rid tuple h).2.rows := by
  unfold update
  rcases prepareTupleForWrite schema tuple with s | prepared
  · exact ⟨rfl, hrows⟩
  · exact Heap.update_congr rid prepared hrows hsize

theorem restore_of_prepared (hprep : prepareTupleForWrite schema tuple = .ok prepared) :
    restore schema rid tuple h = Heap.restore { rid, tuple := prepared, deleted := false } h := by
  unfold restore
  rw [hprep]
  rfl

theorem restore_cases (schema : TableSchema) (rid : ℕ) (tuple : Tuple) (h : Heap) :
    (∃ s h', restore schema rid tuple h = (.error s, h') ∧ h'.rows = h.rows ∧
        h'.pageSize = h.pageSize) ∨
      ∃ prepared h', prepareTupleForWrite schema tuple = .ok prepared ∧
        restore schema rid tuple h = (.ok (), h') ∧
        h'.rows = Heap.restoreInto h.rows ⟨rid, prepared, false⟩ ∧ h'.pageSize = h.pageSize := by
  rcases hprep : prepareTupleForWrite schema tuple with s | prepared
  · left
    refine ⟨s, h, ?_, rfl, rfl⟩
    unfold restore
    rw [hprep]
    rfl
  · rw [restore_of_prepared hprep]
    rcases Heap.restore_cases ⟨rid, prepared, false⟩ h with herr | ⟨h', hok⟩
    · exact .inl herr
    · exact .inr ⟨prepared, h', rfl, hok⟩

theorem restore_congr (schema : TableSchema) (rid : ℕ) (tuple : Tuple)
    (hrows : h'.rows = h.rows) (hsize : h'.pageSize = h.pageSize) :
    (restore schema rid tuple h').1 = (restore schema rid tuple h).1 := by
  unfold restore
  rcases prepareTupleForWrite schema tuple with s | prepared
  · rfl
  · exact Heap.restore_congr _ hrows hsize

end TableStorage

end CourseDb

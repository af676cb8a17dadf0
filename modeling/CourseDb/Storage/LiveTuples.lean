import CourseDb.Storage.HeapChanges

/-! # The tuples of a table

What a table is to its users: the map from the ids of the rows that are not
deleted to their tuples. A successful call sets it at one id. Conversely, a call
on a row that is there succeeds if the tuple it stores fits a page.
-/

namespace CourseDb

namespace Heap

variable {h h' : Heap} {rid : ℕ} {t : Tuple} {row : Row} {deleted : Bool}

/-- The tuple of the row with an id, unless it is deleted. -/
def tupleOf (h : Heap) (rid : ℕ) : Option Tuple :=
  match h.lookup rid with
  | some (t, false) => some t
  | _ => none

/-- The next row id has not run over. -/
structure Numbered (h : Heap) : Prop extends h.Sound where
  counted : h.nextRowId ≤ h.rows.length

/-- `h'` is `h` with the row under `rid` set to `after`. -/
structure Sets (h h' : Heap) (rid : ℕ) (after : Option Tuple) : Prop where
  numbered : h'.Numbered
  tupleOf_eq : h'.tupleOf = Function.update h.tupleOf rid after
  pageSize_eq : h'.pageSize = h.pageSize
  next_eq : h'.nextRowId = max h.nextRowId (rid + 1)

theorem empty_numbered {pageSize : ℕ} (hmin : 36 ≤ pageSize) (hmax : pageSize < 2 ^ 32) :
    (empty pageSize).Numbered :=
  ⟨empty_sound hmin hmax, Nat.zero_le _⟩

theorem tupleOf_of_lookup (hlookup : h.lookup rid = some (t, deleted)) :
    h.tupleOf rid = if deleted then none else some t := by
  unfold tupleOf
  rw [hlookup]
  cases deleted <;> rfl

theorem lookup_of_tupleOf (ht : h.tupleOf rid = some t) : h.lookup rid = some (t, false) := by
  unfold tupleOf at ht
  rcases hlookup : h.lookup rid with _ | ⟨t', deleted⟩
  · rw [hlookup] at ht
    cases ht
  · rw [hlookup] at ht
    cases deleted <;> cases ht
    rfl

/-- A change of the map of all rows at one id changes the map of the tuples there. -/
theorem tupleOf_update (hlookup : h'.lookup = Function.update h.lookup rid (some (t, deleted))) :
    h'.tupleOf = Function.update h.tupleOf rid (if deleted then none else some t) := by
  funext r
  by_cases hr : r = rid
  · subst hr
    rw [Function.update_self, tupleOf_of_lookup (by rw [hlookup, Function.update_self])]
  · unfold tupleOf
    rw [Function.update_of_ne hr, hlookup, Function.update_of_ne hr]

section Stored

variable (hs : h.Sound)
include hs

theorem Sound.get_of_tupleOf (ht : h.tupleOf rid = some t) :
    get rid h = (.ok ⟨rid, t, false⟩, h) := by
  rw [get_spec hs, lookup_of_tupleOf ht]

theorem Sound.get_ok (hget : get rid h = (.ok row, h')) :
    h' = h ∧ row = ⟨rid, row.tuple, false⟩ ∧ h.tupleOf rid = some row.tuple := by
  rw [get_spec hs] at hget
  rcases hlookup : h.lookup rid with _ | ⟨t, deleted⟩
  · rw [hlookup] at hget
    cases hget
  · rw [hlookup] at hget
    cases deleted <;> cases hget
    exact ⟨rfl, rfl, by rw [tupleOf_of_lookup hlookup]; rfl⟩

theorem Sound.get_of_missing (ht : h.tupleOf rid = none) :
    ∃ status, get rid h = (.error status, h) ∧ status.code = .kNotFound := by
  rw [get_spec hs]
  rcases hlookup : h.lookup rid with _ | ⟨t, deleted⟩
  · exact ⟨_, rfl, rfl⟩
  · rw [tupleOf_of_lookup hlookup] at ht
    cases deleted
    · cases ht
    · exact ⟨_, rfl, rfl⟩

theorem Sound.mem_live : row ∈ live h.rows ↔ row.deleted = false ∧ h.tupleOf row.rid = some row.tuple := by
  unfold live
  rw [List.mem_filter, Bool.not_eq_eq_eq_not, Bool.not_true, and_comm, and_congr_right_iff]
  intro hlive
  have hrow : (⟨row.rid, row.tuple, false⟩ : Row) = row := by rw [← hlive]
  constructor
  · intro hmem
    have hlookup : h.lookup row.rid = some (row.tuple, false) := by
      apply (rowMap_eq_some_iff hs.nodup).mpr
      rwa [hrow]
    rw [tupleOf_of_lookup hlookup]
    rfl
  · intro ht
    have hmem := mem_of_rowMap (lookup_of_tupleOf ht)
    rwa [hrow] at hmem

theorem Sound.live_nodup : (live h.rows).Nodup :=
  (List.Nodup.of_map _ hs.nodup).filter _

theorem Sound.fits_tuple (ht : h.tupleOf rid = some t) :
    t.length ≤ maxTupleValues ∧ pageBytes t ≤ h.pageSize := by
  have hmem : (⟨rid, t, false⟩ : Row) ∈ h.rows := mem_of_rowMap (lookup_of_tupleOf ht)
  have hread := hs.readable _ hmem
  have hfit := hs.fits_row hmem
  exact ⟨hread, hfit⟩

end Stored

theorem readable_of_get (hget : get rid h = (.ok row, h')) :
    ∀ r ∈ h.rows, r.tuple.length ≤ maxTupleValues := by
  rcases loadAllRows_cases h with ⟨status, hload⟩ | hload
  · unfold get getIncludingDeleted at hget
    rw [Fallible.bind_error (Fallible.bind_error hload)] at hget
    cases hget
  · unfold loadAllRows readRows at hload
    by_cases hall : (h.rows.all fun r => r.tuple.length ≤ maxTupleValues) = true
    · simpa using hall
    · rw [if_neg hall] at hload
      cases hload

theorem insert_pages_le (t : Tuple) (h : Heap) : h.pages.length ≤ (insert t h).2.pages.length := by
  unfold insert
  split_ifs
  · exact le_rfl
  · rcases h.findPage (entrySize (h.newRow t)) with _ | ordinal
    · simp [addRow, addPage]
    · dsimp only
      rcases readRows (h.pages[ordinal]?.getD []) with status | page
      · exact le_rfl
      · simp [addRow]

/-- Deleted rows stay in the file, so the ids run out only after the space on the device. -/
theorem Numbered.next_lt_of_insert (hn : h.Numbered) (hd : (insert t h).2.WithinDevice)
    (hsize : (insert t h).2.pageSize = h.pageSize) : h.nextRowId + 1 < 2 ^ 64 := by
  have hwithin : h.WithinDevice := by
    unfold WithinDevice at hd ⊢
    rw [hsize] at hd
    have hpages := insert_pages_le t h
    have hmul : (h.pages.length + 1) * h.pageSize ≤
        ((insert t h).2.pages.length + 1) * h.pageSize :=
      Nat.mul_le_mul_right _ (by omega)
    omega
  have hrows := hn.toValid.rows_length_lt hwithin
  have hcounted := hn.counted
  omega

theorem Numbered.insert_sets {r : ℕ} (hn : h.Numbered) (ht : t.length ≤ maxTupleValues)
    (hd : (insert t h).2.WithinDevice) (hinsert : insert t h = (.ok r, h')) :
    r = h.nextRowId ∧ h.Sets h' r (some t) := by
  have hspec := insert_spec hn.toSound ht
  rw [hinsert] at hd hspec
  rcases insert_cases t h with ⟨status, herror⟩ | ⟨h₁, hok, hperm, hsize⟩
  · rw [hinsert] at herror
    cases herror
  · rw [hinsert] at hok
    cases hok
    split_ifs at hspec
    · obtain ⟨h₂, hpair, hlookup, hnext, -, hsound⟩ := hspec
      cases hpair
      have hlt := hn.next_lt_of_insert (t := t) (by rw [hinsert]; exact hd)
        (by rw [hinsert]; exact hsize)
      have hlength := hperm.length_eq
      have hcounted := hn.counted
      rw [Nat.mod_eq_of_lt hlt] at hnext
      rw [List.length_cons] at hlength
      exact ⟨rfl, ⟨hsound hlt, by omega⟩, tupleOf_update hlookup, hsize, by omega⟩
    · cases hspec

theorem length_changeRow (rows : List Row) (rid : ℕ) (f : Row → Row) :
    (changeRow rows rid f).length = rows.length := by
  unfold changeRow
  exact List.length_modify _ _ _

theorem Becomes.sets (hb : Becomes h h' (Function.update h.lookup rid
    (some (t, deleted)))) (hn : h.Numbered) (hrid : rid < h.nextRowId)
    (hlength : h.rows.length ≤ h'.rows.length) :
    h.Sets h' rid (if deleted then none else some t) := by
  have hcounted := hn.counted
  refine ⟨⟨hb.sound, ?_⟩, tupleOf_update hb.lookup_eq, hb.pageSize_eq, ?_⟩
  · rw [hb.next_eq]
    omega
  · rw [hb.next_eq]
    omega

theorem Numbered.update_sets (hn : h.Numbered) (ht : t.length ≤ maxTupleValues)
    (hupdate : update rid t h = (.ok (), h')) :
    (∃ old, h.tupleOf rid = some old) ∧ h.Sets h' rid (some t) := by
  have hspec := update_spec hn.toSound rid ht
  rcases update_cases rid t h with ⟨status, herror⟩ | ⟨row, h₁, hfind, hlive, -, hok, hrows, -⟩
  · rw [hupdate] at herror
    cases herror
  · rw [hupdate] at hok
    cases hok
    have hlength : h.rows.length ≤ h'.rows.length := by rw [hrows, length_changeRow]
    rcases hlookup : h.lookup rid with _ | ⟨old, deleted⟩
    · simp only [hlookup, hupdate] at hspec
      cases hspec
    · cases deleted
      · simp only [hlookup] at hspec
        split_ifs at hspec
        · obtain ⟨h₂, hpair, hbecomes⟩ := hspec
          rw [hupdate] at hpair
          cases hpair
          have hlt := hn.lookup_lt hlookup
          exact ⟨⟨old, by rw [tupleOf_of_lookup hlookup]; rfl⟩, hbecomes.sets hn hlt hlength⟩
        · rw [hupdate] at hspec
          cases hspec
      · simp only [hlookup, hupdate] at hspec
        cases hspec

theorem Numbered.delete_sets (hn : h.Numbered) (ht : h.tupleOf rid = some t) :
    ∃ h', delete rid h = (.ok (), h') ∧ h.Sets h' rid none := by
  have hlookup := lookup_of_tupleOf ht
  have hspec := delete_spec hn.toSound rid
  simp only [hlookup] at hspec
  obtain ⟨h', hok, hbecomes⟩ := hspec
  refine ⟨h', hok, ?_⟩
  rcases delete_cases (hn.get_of_tupleOf ht) with ⟨status, herror⟩ | ⟨h₁, -, -, hok', hrows, -⟩
  · rw [hok] at herror
    cases herror
  · rw [hok] at hok'
    cases hok'
    have hlength : h.rows.length ≤ h'.rows.length := by rw [hrows, length_changeRow]
    exact hbecomes.sets hn (hn.lookup_lt hlookup) hlength

theorem length_le_restoreInto (rows : List Row) (row : Row) :
    rows.length ≤ (restoreInto rows row).length := by
  unfold restoreInto
  split
  · simp
  · rw [length_changeRow]

theorem mem_restoreInto (rows : List Row) (row : Row) :
    { row with deleted := false } ∈ restoreInto rows row := by
  unfold restoreInto
  split
  case h_1 => simp
  case h_2 old hfind => exact mem_changeRow_self (f := fun _ => { row with deleted := false }) hfind

theorem Numbered.restore_sets (hn : h.Numbered) (hrid : rid < h.nextRowId)
    (ht : t.length ≤ maxTupleValues) (hrestore : restore ⟨rid, t, false⟩ h = (.ok (), h')) :
    h.Sets h' rid (some t) := by
  have hspec := restore_spec hn.toSound (show (⟨rid, t, false⟩ : Row).rid < h.nextRowId from hrid) ht
  rcases restore_cases ⟨rid, t, false⟩ h with ⟨status, h₁, herror, -⟩ | ⟨h₁, hok, hrows, -⟩
  · rw [hrestore] at herror
    cases herror
  · rw [hrestore] at hok
    cases hok
    have hlength : h.rows.length ≤ h'.rows.length := by
      rw [hrows]
      exact length_le_restoreInto _ _
    split_ifs at hspec
    · obtain ⟨h₂, hpair, hbecomes⟩ := hspec
      rw [hrestore] at hpair
      cases hpair
      exact hbecomes.sets hn hrid hlength
    · rw [hrestore] at hspec
      cases hspec

end Heap

namespace TableStorage

open Fallible (ofExcept_bind_eq_ok)

variable {schema : TableSchema} {tuple prepared : Tuple} {h h' h'' : Heap} {rid : ℕ} {row : Row}

/-- Preparing a tuple that has been prepared changes nothing. -/
theorem prepareTupleForWrite_prepared (h : prepareTupleForWrite schema tuple = .ok prepared) :
    prepareTupleForWrite schema prepared = .ok prepared ∧ prepared.length = schema.length := by
  unfold prepareTupleForWrite at h ⊢
  split_ifs at h with hempty hlong
  have hchecked := (prepareValues_ok h).1
  have hlength := hchecked.length_eq
  rw [if_neg hempty, if_neg (by omega)]
  exact ⟨hchecked.prepareValues_eq, hlength⟩

/-- A row is read back as it has been set. -/
theorem get_of_sets (hsets : h.Sets h' rid (some prepared)) (hget : get rid h' = (.ok row, h'')) :
    row.tuple = prepared ∧ h'' = h' := by
  obtain ⟨rfl, -, htuple⟩ := hsets.numbered.get_ok hget
  rw [hsets.tupleOf_eq, Function.update_self] at htuple
  exact ⟨(Option.some.inj htuple).symm, rfl⟩

theorem insert_sets (hn : h.Numbered) (hinsert : insert schema tuple h = (.ok rid, h'))
    (hget : get rid h' = (.ok row, h'')) :
    prepareTupleForWrite schema tuple = .ok row.tuple ∧ h'' = h' ∧ h.tupleOf rid = none ∧
      h.Sets h' rid (some row.tuple) := by
  obtain ⟨prepared, hprep, hinsert⟩ := ofExcept_bind_eq_ok.mp hinsert
  split_ifs at hinsert with hfits
  · have hread : prepared.length ≤ maxTupleValues := by
      rcases Heap.insert_cases prepared h with ⟨status, herror⟩ | ⟨h₁, hok, hperm, -⟩
      · rw [hinsert] at herror
        cases herror
      · rw [hinsert] at hok
        cases hok
        exact Heap.readable_of_get hget _ (hperm.mem_iff.mpr List.mem_cons_self)
    have hdevice : (Heap.insert prepared h).2.WithinDevice := by
      unfold fitsDevice at hfits
      rwa [decide_eq_true_eq] at hfits
    obtain ⟨rfl, hsets⟩ := hn.insert_sets hread hdevice hinsert
    obtain ⟨rfl, hsame⟩ := get_of_sets hsets hget
    have hnone : h.tupleOf h.nextRowId = none := by
      unfold Heap.tupleOf
      rw [hn.lookup_next]
    exact ⟨hprep, hsame, hnone, hsets⟩
  · cases hinsert

theorem update_sets (hn : h.Numbered) (hupdate : update schema rid tuple h = (.ok (), h'))
    (hget : get rid h' = (.ok row, h'')) :
    prepareTupleForWrite schema tuple = .ok row.tuple ∧ h'' = h' ∧
      h.Sets h' rid (some row.tuple) := by
  obtain ⟨prepared, hprep, hupdate⟩ := ofExcept_bind_eq_ok.mp hupdate
  have hread : prepared.length ≤ maxTupleValues := by
    rcases Heap.update_cases rid prepared h with
      ⟨status, herror⟩ | ⟨old, h₁, hfind, -, -, hok, hrows, -⟩
    · rw [hupdate] at herror
      cases herror
    · rw [hupdate] at hok
      cases hok
      refine Heap.readable_of_get hget { old with tuple := prepared } ?_
      rw [hrows]
      exact Heap.mem_changeRow_self (f := fun row => { row with tuple := prepared }) hfind
  obtain ⟨-, hsets⟩ := hn.update_sets hread hupdate
  obtain ⟨rfl, hsame⟩ := get_of_sets hsets hget
  exact ⟨hprep, hsame, hsets⟩

theorem restore_sets (hn : h.Numbered) (hrid : rid < h.nextRowId)
    (hrestore : restore schema rid tuple h = (.ok (), h')) (hget : get rid h' = (.ok row, h'')) :
    prepareTupleForWrite schema tuple = .ok row.tuple ∧ h'' = h' ∧
      h.Sets h' rid (some row.tuple) := by
  obtain ⟨prepared, hprep, hrestore⟩ := ofExcept_bind_eq_ok.mp hrestore
  have hread : prepared.length ≤ maxTupleValues := by
    rcases Heap.restore_cases ⟨rid, prepared, false⟩ h with
      ⟨status, h₁, herror, -⟩ | ⟨h₁, hok, hrows, -⟩
    · rw [hrestore] at herror
      cases herror
    · rw [hrestore] at hok
      cases hok
      refine Heap.readable_of_get hget ⟨rid, prepared, false⟩ ?_
      rw [hrows]
      exact Heap.mem_restoreInto _ _
  have hsets := hn.restore_sets hrid hread hrestore
  obtain ⟨rfl, hsame⟩ := get_of_sets hsets hget
  exact ⟨hprep, hsame, hsets⟩

section Succeeds

variable (hn : h.Numbered) (hprep : prepareTupleForWrite schema tuple = .ok prepared)
  (hread : prepared.length ≤ maxTupleValues) (hfit : Heap.pageBytes prepared ≤ h.pageSize)
include hn hprep hread hfit

/-- A row that is there can be given any tuple that can be stored. -/
theorem update_succeeds {old : Tuple} (hold : h.tupleOf rid = some old) :
    ∃ h', update schema rid tuple h = (.ok (), h') ∧ h.Sets h' rid (some prepared) := by
  have hspec := Heap.update_spec hn.toSound rid hread
  simp only [Heap.lookup_of_tupleOf hold, if_pos hfit] at hspec
  obtain ⟨h', hok, -⟩ := hspec
  exact ⟨h', by rw [update_of_prepared hprep, hok], (hn.update_sets hread hok).2⟩

theorem restore_succeeds (hrid : rid < h.nextRowId) :
    ∃ h', restore schema rid tuple h = (.ok (), h') ∧ h.Sets h' rid (some prepared) := by
  have hspec := Heap.restore_spec hn.toSound
    (show (⟨rid, prepared, false⟩ : Row).rid < h.nextRowId from hrid) hread
  rw [if_pos hfit] at hspec
  obtain ⟨h', hok, -⟩ := hspec
  exact ⟨h', by rw [restore_of_prepared hprep, hok], hn.restore_sets hrid hread hok⟩

end Succeeds

end TableStorage

end CourseDb

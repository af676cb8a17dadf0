import CourseDb.Storage.HeapChanges

/-! # The ids of the rows

A new row gets the next id of its table. As long as the counter does not run
over, no two rows of a table have the same id, deleted rows included.
-/

namespace CourseDb

open Fallible (Within)

variable {row : Row}

namespace Heap

variable {h h' : Heap} {rid : ℕ} {tuple : Tuple} {rows : List Row}

/-- The rows have different ids, and the next row gets a new one. -/
structure Counted (h : Heap) : Prop where
  nodup : (h.rows.map Row.rid).Nodup
  rid_lt : ∀ row ∈ h.rows, row.rid < h.nextRowId
  next_lt : h.nextRowId < 2 ^ 64

theorem empty_counted (pageSize : ℕ) : (empty pageSize).Counted where
  nodup := List.nodup_nil
  rid_lt _ hrow := by cases hrow
  next_lt := Nat.two_pow_pos 64

theorem Counted.of_map_rid (hc : h.Counted) (hrows : h'.rows = rows)
    (hids : rows.map Row.rid = h.rows.map Row.rid) (hnext : h'.nextRowId = h.nextRowId) :
    h'.Counted where
  nodup := by
    rw [hrows, hids]
    exact hc.nodup
  rid_lt row hrow := by
    have hmem : row.rid ∈ h.rows.map Row.rid := by
      rw [← hids, ← hrows]
      exact List.mem_map_of_mem hrow
    obtain ⟨old, hold, hrid⟩ := List.mem_map.mp hmem
    rw [hnext, ← hrid]
    exact hc.rid_lt old hold
  next_lt := by
    rw [hnext]
    exact hc.next_lt

/-- With different ids, the change of the first row with an id is the change of every
row with it. -/
theorem changeRow_eq_map (hnodup : (rows.map Row.rid).Nodup) (rid : ℕ) (f : Row → Row) :
    changeRow rows rid f = rows.map fun row => if row.rid = rid then f row else row := by
  induction rows with
  | nil => rfl
  | cons row rows ih =>
    obtain ⟨hrow, hrest⟩ := List.nodup_cons.mp hnodup
    rw [changeRow_cons, List.map_cons]
    by_cases hrid : row.rid = rid
    · subst hrid
      have hsame : rows.map (fun r => if r.rid = row.rid then f r else r) = rows := by
        rw [List.map_congr_left, List.map_id]
        intro r hr
        have hne : r.rid ≠ row.rid := by
          intro heq
          exact hrow (heq ▸ List.mem_map_of_mem hr)
        exact if_neg hne
      rw [if_pos rfl, if_pos rfl, hsame]
    · rw [if_neg hrid, if_neg hrid, ih hrest]

/-- The row ids that are given out stay so. -/
def SameNext (h h' : Heap) : Prop := h'.nextRowId = h.nextRowId

instance : Std.Refl SameNext where
  refl _ := rfl

instance : IsTrans Heap SameNext where
  trans _ _ _ hab hbc := hbc.trans hab

theorem rewriteAllRows_sameNext (rows : List Row) : Within SameNext (rewriteAllRows rows) := by
  intro h
  unfold rewriteAllRows
  rcases RowStore.packRows h.pageSize rows [] [] 0 with s | batches
  · exact refl h
  · exact Eq.refl h.nextRowId

theorem loadAllRows_sameNext : Within SameNext loadAllRows := fun h => refl h

theorem update_sameNext (rid : ℕ) (tuple : Tuple) : Within SameNext (update rid tuple) := by
  refine loadAllRows_sameNext.bind fun rows => ?_
  cases findRow rid rows with
  | none => exact Within.fail _
  | some row =>
    dsimp only
    split_ifs
    · exact Within.fail _
    · exact rewriteAllRows_sameNext _

theorem delete_sameNext (rid : ℕ) : Within SameNext (delete rid) := by
  refine loadAllRows_sameNext.bind fun rows => ?_
  cases findRow rid rows with
  | none => exact Within.fail _
  | some row =>
    dsimp only
    split_ifs
    · exact Within.pure _
    · exact rewriteAllRows_sameNext _

theorem insert_next (hok : insert tuple h = (.ok rid, h')) :
    h'.nextRowId = (h.nextRowId + 1) % 2 ^ 64 := by
  unfold insert at hok
  split_ifs at hok
  · cases hok
  · rcases hfind : h.findPage (entrySize (h.newRow tuple)) with _ | ordinal
    · rw [hfind] at hok
      cases hok
      rfl
    · rw [hfind] at hok
      dsimp only at hok
      rcases hread : readRows (h.pages[ordinal]?.getD []) with s | page
      · rw [hread] at hok
        cases hok
      · rw [hread] at hok
        cases hok
        rfl

section

variable (hc : h.Counted)
include hc

theorem insert_counted (hroom : h.nextRowId + 1 < 2 ^ 64) (tuple : Tuple) :
    ((insert tuple h).2).Counted := by
  rcases insert_cases tuple h with ⟨s, herr⟩ | ⟨h', hok, hperm, -⟩
  · rw [herr]
    exact hc
  · have hnext := insert_next hok
    rw [Nat.mod_eq_of_lt hroom] at hnext
    rw [hok]
    refine ⟨(hperm.map Row.rid).nodup_iff.mpr ?_, fun row hrow => ?_, ?_⟩
    · refine List.nodup_cons.mpr ⟨fun hmem => ?_, hc.nodup⟩
      obtain ⟨row, hrow, hrid⟩ := List.mem_map.mp hmem
      have := hc.rid_lt row hrow
      rw [hrid] at this
      exact Nat.lt_irrefl _ this
    · rw [hnext]
      rcases List.mem_cons.mp (hperm.mem_iff.mp hrow) with rfl | hold
      · exact Nat.lt_succ_self _
      · exact (hc.rid_lt row hold).trans (Nat.lt_succ_self _)
    · rw [hnext]
      exact hroom

theorem update_counted (rid : ℕ) (tuple : Tuple) : ((update rid tuple h).2).Counted := by
  have hnext := update_sameNext rid tuple h
  rcases update_cases rid tuple h with ⟨s, herr⟩ | ⟨row, h', -, -, -, hok, hrows, -⟩
  · rw [herr]
    exact hc
  · rw [hok] at hnext ⊢
    exact hc.of_map_rid hrows (map_rid_changeRow fun _ hrid => hrid) hnext

theorem delete_counted (rid : ℕ) : ((delete rid h).2).Counted := by
  have hnext := delete_sameNext rid h
  unfold delete at hnext ⊢
  rcases loadAllRows_cases h with ⟨s, hload⟩ | hload
  · rw [Fallible.bind_error hload]
    exact hc
  · rw [Fallible.bind_ok hload] at hnext ⊢
    cases hfind : findRow rid h.rows with
    | none => exact hc
    | some row =>
      rw [hfind] at hnext
      dsimp only at hnext ⊢
      split_ifs at hnext ⊢
      · exact hc
      · rcases rewriteAllRows_cases (changeRow h.rows rid fun row => { row with deleted := true }) h
          with ⟨s, herr⟩ | ⟨h', hok, hrows, -⟩
        · rw [herr]
          exact hc
        · rw [hok] at hnext ⊢
          exact hc.of_map_rid hrows (map_rid_changeRow fun _ hrid => hrid) hnext

theorem raiseNextRowId_counted (hrid : rid + 1 < 2 ^ 64) :
    (h.raiseNextRowId rid).Counted ∧ rid < (h.raiseNextRowId rid).nextRowId := by
  have hnext : (h.raiseNextRowId rid).nextRowId = max h.nextRowId (rid + 1) := by
    rw [raiseNextRowId, Nat.mod_eq_of_lt hrid]
  have hlt := hc.next_lt
  refine ⟨⟨hc.nodup, fun row hrow => ?_, ?_⟩, ?_⟩
  · rw [hnext]
    exact (hc.rid_lt row hrow).trans_le (le_max_left _ _)
  · rw [hnext]
    omega
  · rw [hnext]
    omega

theorem restoreInto_counted (hlt : row.rid < h.nextRowId)
    (hrows : h'.rows = restoreInto h.rows row) (hnext : h'.nextRowId = h.nextRowId) :
    h'.Counted := by
  unfold restoreInto at hrows
  rcases rowMap_find? h.rows row.rid with ⟨hfind, hmap⟩ | ⟨t, d, hfind, -⟩
  · rw [hfind] at hrows
    have hids : h'.rows.map Row.rid = h.rows.map Row.rid ++ [row.rid] := by
      rw [hrows, List.map_append]
      rfl
    refine ⟨?_, fun r hr => ?_, ?_⟩
    · rw [hids, List.nodup_append_comm]
      refine List.nodup_cons.mpr ⟨fun hmem => ?_, hc.nodup⟩
      obtain ⟨r, hr, hrid⟩ := List.mem_map.mp hmem
      exact rowMap_eq_none.mp hmap r hr hrid
    · rw [hnext]
      have hmem : r.rid ∈ h.rows.map Row.rid ++ [row.rid] := hids ▸ List.mem_map_of_mem hr
      rcases List.mem_append.mp hmem with hmem | hmem
      · obtain ⟨old, hold, hrid⟩ := List.mem_map.mp hmem
        exact hrid ▸ hc.rid_lt old hold
      · rw [List.mem_singleton.mp hmem]
        exact hlt
    · rw [hnext]
      exact hc.next_lt
  · rw [hfind] at hrows
    exact hc.of_map_rid hrows (map_rid_changeRow fun _ _ => rfl) hnext

theorem restore_counted (hrid : row.rid + 1 < 2 ^ 64) : ((restore row h).2).Counted := by
  rcases loadAllRows_cases h with ⟨s, hload⟩ | hload
  · unfold restore
    rw [Fallible.bind_error hload]
    exact hc
  · obtain ⟨hraised, hlt⟩ := raiseNextRowId_counted hc hrid
    have hnext := rewriteAllRows_sameNext (restoreInto h.rows row) (h.raiseNextRowId row.rid)
    rw [restore_of_load hload]
    rcases rewriteAllRows_cases (restoreInto h.rows row) (h.raiseNextRowId row.rid) with
      ⟨s, herr⟩ | ⟨h', hok, hrows, -⟩
    · rw [herr]
      exact hraised
    · rw [hok] at hnext ⊢
      exact restoreInto_counted hraised hlt hrows hnext

end

end Heap

namespace TableStorage

variable {schema : TableSchema} {tuple : Tuple} {h h' : Heap} {rid : ℕ}

theorem insert_counted (hc : h.Counted) (hroom : h.nextRowId + 1 < 2 ^ 64) (schema : TableSchema)
    (tuple : Tuple) : ((insert schema tuple h).2).Counted := by
  rcases hprep : prepareTupleForWrite schema tuple with s | prepared
  · unfold insert
    rw [hprep]
    exact hc
  · rw [insert_of_prepared hprep]
    split_ifs
    · exact Heap.insert_counted hc hroom prepared
    · exact hc

theorem update_counted (hc : h.Counted) (schema : TableSchema) (rid : ℕ) (tuple : Tuple) :
    ((update schema rid tuple h).2).Counted := by
  unfold update
  rcases prepareTupleForWrite schema tuple with s | prepared
  · exact hc
  · exact Heap.update_counted hc rid prepared

theorem restore_counted (hc : h.Counted) (schema : TableSchema) (tuple : Tuple)
    (hrid : rid + 1 < 2 ^ 64) : ((restore schema rid tuple h).2).Counted := by
  unfold restore
  rcases prepareTupleForWrite schema tuple with s | prepared
  · exact hc
  · exact Heap.restore_counted hc hrid

theorem insert_live (hok : insert schema tuple h = (.ok rid, h')) :
    ∃ prepared, prepareTupleForWrite schema tuple = .ok prepared ∧ rid = h.nextRowId ∧
      h'.nextRowId = (h.nextRowId + 1) % 2 ^ 64 ∧
      (Heap.live h'.rows).Perm (Heap.live h.rows ++ [h.newRow prepared]) := by
  rcases hprep : prepareTupleForWrite schema tuple with s | prepared
  · unfold insert at hok
    rw [hprep] at hok
    cases hok
  · rw [insert_of_prepared hprep] at hok
    split_ifs at hok
    · rcases Heap.insert_cases prepared h with ⟨s, herr⟩ | ⟨h₁, hok₁, hperm, -⟩
      · rw [herr] at hok
        cases hok
      · rw [hok₁] at hok
        cases hok
        refine ⟨prepared, rfl, rfl, Heap.insert_next hok₁, ?_⟩
        have hlive := hperm.filter fun row => !row.deleted
        exact hlive.trans (List.perm_append_singleton _ _).symm
    · cases hok

theorem update_live (hc : h.Counted) (hok : update schema rid tuple h = (.ok (), h')) :
    ∃ prepared, prepareTupleForWrite schema tuple = .ok prepared ∧
      Heap.live h'.rows = (Heap.live h.rows).map fun row =>
        if row.rid = rid then { row with tuple := prepared } else row := by
  rcases hprep : prepareTupleForWrite schema tuple with s | prepared
  · unfold update at hok
    rw [hprep] at hok
    cases hok
  · rw [update_of_prepared hprep] at hok
    rcases Heap.update_cases rid prepared h with ⟨s, herr⟩ | ⟨row, h₁, -, -, -, hok₁, hrows, -⟩
    · rw [herr] at hok
      cases hok
    · rw [hok₁] at hok
      cases hok
      refine ⟨prepared, rfl, ?_⟩
      rw [hrows, Heap.changeRow_eq_map hc.nodup, Heap.live, List.filter_map]
      refine congrArg (List.map _) (List.filter_congr fun r _ => ?_)
      rw [Function.comp_apply]
      split_ifs <;> rfl

theorem delete_live (hc : h.Counted) (hget : get rid h = (.ok row, h))
    (hok : delete rid h = (.ok (), h')) :
    Heap.live h'.rows = (Heap.live h.rows).filter fun row => row.rid ≠ rid := by
  rcases delete_cases hget with ⟨s, herr⟩ | ⟨h₁, -, -, hok₁, hrows, -⟩
  · rw [herr] at hok
    cases hok
  · rw [hok₁] at hok
    cases hok
    rw [hrows, Heap.changeRow_eq_map hc.nodup]
    generalize h.rows = rows
    induction rows with
    | nil => rfl
    | cons r rows ih =>
      unfold Heap.live at ih ⊢
      rw [List.map_cons]
      by_cases hrid : r.rid = rid
      · cases hd : r.deleted <;> simp [hrid, hd, ih]
      · cases hd : r.deleted <;> simp [hrid, hd, ih]

end TableStorage

end CourseDb

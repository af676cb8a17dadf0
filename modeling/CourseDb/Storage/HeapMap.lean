import CourseDb.Storage.RowStoreSim
import Mathlib.Data.List.Perm.Basic
import Mathlib.Logic.Function.Basic

/-! # The heap as a map from row ids to rows

The content of a heap is the map that gives each stored row id its tuple and
its deletion flag. For a sound heap every operation is determined by this map:
whether it succeeds, what it returns, and how it changes the map.
-/

namespace CourseDb

open Fallible (bind_ok bind_apply modify_apply)

variable {f : Row → Row} {row : Row}

/-- A row id's tuple and deletion flag. -/
abbrev RowMap := ℕ → Option (Tuple × Bool)

/-- The map a list of rows stands for; the first row with an id counts. -/
def rowMap (rows : List Row) : RowMap := fun rid =>
  (findRow rid rows).map fun row => (row.tuple, row.deleted)

section RowMap

variable {rows : List Row} {rid : ℕ} {t : Tuple} {d : Bool}

theorem rowMap_cons (row : Row) (rows : List Row) :
    rowMap (row :: rows) = Function.update (rowMap rows) row.rid (some (row.tuple, row.deleted)) := by
  funext rid
  by_cases h : rid = row.rid
  · simp [rowMap, h]
  · simp [rowMap, h, Ne.symm h]

theorem rowMap_eq_none : rowMap rows rid = none ↔ ∀ row ∈ rows, row.rid ≠ rid := by
  simp [rowMap]

theorem mem_of_rowMap (h : rowMap rows rid = some (t, d)) : (⟨rid, t, d⟩ : Row) ∈ rows := by
  simp only [rowMap, Option.map_eq_some_iff, Prod.mk.injEq] at h
  obtain ⟨row, hfind, rfl, rfl⟩ := h
  obtain rfl : row.rid = rid := by simpa using List.find?_some hfind
  exact List.mem_of_find?_eq_some hfind

/-- With distinct ids the map lists exactly the rows. -/
theorem rowMap_eq_some_iff (hnodup : (rows.map Row.rid).Nodup) :
    rowMap rows rid = some (t, d) ↔ (⟨rid, t, d⟩ : Row) ∈ rows := by
  refine ⟨mem_of_rowMap, fun hmem => ?_⟩
  induction rows with
  | nil => simp at hmem
  | cons row rows ih =>
    rw [List.map_cons, List.nodup_cons] at hnodup
    rw [rowMap_cons]
    rcases List.mem_cons.mp hmem with rfl | hmem
    · simp
    · have hne : rid ≠ row.rid := by
        rintro rfl
        exact hnodup.1 (List.mem_map.mpr ⟨_, hmem, rfl⟩)
      rw [Function.update_of_ne hne]
      exact ih hnodup.2 hmem

theorem rowMap_perm {xs ys : List Row} (hperm : xs.Perm ys) (hnodup : (xs.map Row.rid).Nodup) :
    rowMap xs = rowMap ys := by
  have hnodup' : (ys.map Row.rid).Nodup := (hperm.map Row.rid).nodup_iff.mp hnodup
  funext rid
  apply Option.ext
  rintro ⟨t, d⟩
  rw [rowMap_eq_some_iff hnodup, rowMap_eq_some_iff hnodup', hperm.mem_iff]

theorem rowMap_append_singleton (row : Row) (h : rowMap rows row.rid = none) :
    rowMap (rows ++ [row]) = Function.update (rowMap rows) row.rid (some (row.tuple, row.deleted)) := by
  rw [rowMap_eq_none] at h
  funext rid
  by_cases hrid : rid = row.rid
  · subst hrid
    have hnone : findRow row.rid rows = none := by simpa using h
    simp [rowMap, hnone]
  · simp [rowMap, hrid, Ne.symm hrid, List.find?_append]

theorem rowMap_changeRow (hfind : findRow rid rows = some row)
    (hf : (f row).rid = rid) : rowMap (Heap.changeRow rows rid f) =
      Function.update (rowMap rows) rid (some ((f row).tuple, (f row).deleted)) := by
  induction rows with
  | nil => simp at hfind
  | cons r rows ih =>
    rw [Heap.changeRow_cons]
    by_cases hr : r.rid = rid
    · obtain rfl : r = row := by simpa [hr] using hfind
      rw [if_pos hr, rowMap_cons, rowMap_cons, hf, hr, Function.update_idem]
    · have hfind' : findRow rid rows = some row := by simpa [hr] using hfind
      rw [if_neg hr, rowMap_cons, rowMap_cons, ih hfind', Function.update_comm (Ne.symm hr)]

theorem map_rid_changeRow (hf : ∀ r, r.rid = rid → (f r).rid = rid) :
    (Heap.changeRow rows rid f).map Row.rid = rows.map Row.rid := by
  induction rows with
  | nil => rfl
  | cons r rows ih =>
    rw [Heap.changeRow_cons]
    split_ifs with hr
    · rw [List.map_cons, List.map_cons, hf r hr, hr]
    · rw [List.map_cons, List.map_cons, ih]

theorem rowMap_find? (rows : List Row) (rid : ℕ) :
    (findRow rid rows = none ∧ rowMap rows rid = none) ∨
      ∃ t d, findRow rid rows = some ⟨rid, t, d⟩ ∧
        rowMap rows rid = some (t, d) := by
  cases hfind : findRow rid rows with
  | none => exact .inl ⟨rfl, by simp [rowMap, hfind]⟩
  | some row =>
    obtain rfl : row.rid = rid := by simpa using List.find?_some hfind
    exact .inr ⟨row.tuple, row.deleted, rfl, by simp [rowMap, hfind]⟩

end RowMap

namespace Heap

/-- The bytes a tuple takes in a page of its own. -/
def pageBytes (t : Tuple) : ℕ := RowStore.pageHeaderSize + (21 + (serializeTuple t).length)

theorem pageBytes_eq (row : Row) :
    RowStore.pageHeaderSize + entrySize row = pageBytes row.tuple := by
  rw [RowStore.entrySize_eq, pageBytes]

def lookup (h : Heap) : RowMap := rowMap h.rows

/-- A heap that arises from operations on rows the page format can hold. -/
structure Sound (h : Heap) : Prop extends h.Valid where
  nodup : (h.rows.map Row.rid).Nodup
  rid_lt : ∀ row ∈ h.rows, row.rid < h.nextRowId
  readable : ∀ row ∈ h.rows, row.tuple.length ≤ maxTupleValues

variable {h : Heap} {rid ordinal : ℕ} {t : Tuple} {rows : List Row}

theorem empty_sound {pageSize : ℕ} (hmin : 36 ≤ pageSize) (hmax : pageSize < 2 ^ 32) :
    (empty pageSize).Sound :=
  { minSize := hmin, maxSize := hmax, next_lt := by simp [empty], fits := by simp [empty],
    nodup := by simp [empty, rows], rid_lt := by simp [empty, rows],
    readable := by simp [empty, rows] }

theorem Sound.lookup_lt (hs : h.Sound) {v : Tuple × Bool} (hv : h.lookup rid = some v) :
    rid < h.nextRowId :=
  hs.rid_lt _ (mem_of_rowMap (t := v.1) (d := v.2) hv)

theorem Sound.lookup_next (hs : h.Sound) : h.lookup h.nextRowId = none := by
  rw [Option.eq_none_iff_forall_not_mem]
  intro v hv
  exact lt_irrefl _ (hs.lookup_lt hv)

theorem Sound.fits_row (hs : h.Sound) (hrow : row ∈ h.rows) : pageBytes row.tuple ≤ h.pageSize := by
  obtain ⟨page, hpage, hmem⟩ := List.mem_flatten.mp hrow
  have hsize := (hs.fits page hpage).size_le
  have hle := RowStore.entrySize_le_usedBytes hmem
  rw [← pageBytes_eq]
  omega

theorem Sound.loadAllRows (hs : h.Sound) : loadAllRows h = (.ok h.rows, h) := by
  unfold Heap.loadAllRows readRows
  rw [if_pos (by simpa using hs.readable)]

/-- `h'` is a sound heap with content `m` that keeps the page size and the next
row id of `h`. -/
structure Becomes (h h' : Heap) (m : RowMap) : Prop where
  sound : h'.Sound
  lookup_eq : h'.lookup = m
  next_eq : h'.nextRowId = h.nextRowId
  pageSize_eq : h'.pageSize = h.pageSize

theorem rewriteAllRows_ok (hs : h.Sound) (rows : List Row)
    (hnodup : (rows.map Row.rid).Nodup) (hrid : ∀ row ∈ rows, row.rid < h.nextRowId)
    (hread : ∀ row ∈ rows, row.tuple.length ≤ maxTupleValues)
    (hfit : ∀ row ∈ rows, pageBytes row.tuple ≤ h.pageSize) :
    ∃ h', rewriteAllRows rows h = (.ok (), h') ∧ Becomes h h' (rowMap rows) := by
  rcases packRows_eq h.pageSize rows [] [] 0 with
    ⟨-, batches, hpack⟩ | ⟨⟨row, hrow, hlarge⟩, -⟩
  · obtain ⟨hflat, hpages⟩ := packRows_ok rows usedBytes_nil.symm (by simp) (by simp) hpack
    have hrows : (batches ++ List.replicate (h.pages.length - batches.length) []).flatten = rows := by
      simpa using hflat
    refine ⟨{ h with
      pages := batches ++ List.replicate (h.pages.length - batches.length) [] },
      by rw [rewriteAllRows, hpack], ?_, ?_, rfl, rfl⟩
    · refine ⟨⟨hs.minSize, hs.maxSize, hs.next_lt, ?_⟩, ?_, ?_, ?_⟩
      · intro page hpage
        refine ⟨?_, fun row hrow => (hrid row ?_).trans hs.next_lt⟩
        · rcases List.mem_append.mp hpage with hpage | hpage
          · exact hpages page hpage
          · rw [(List.mem_replicate.mp hpage).2]
            exact hs.minSize.trans' (by decide)
        · exact hrows ▸ List.mem_flatten.mpr ⟨page, hpage, hrow⟩
      · rwa [Heap.rows, hrows]
      · rwa [Heap.rows, hrows]
      · rwa [Heap.rows, hrows]
    · rw [lookup, Heap.rows, hrows]
  · have := hfit row hrow
    rw [pageBytes_eq] at hlarge
    omega

theorem rewriteAllRows_large (row : Row) (hrow : row ∈ rows)
    (hlarge : ¬ pageBytes row.tuple ≤ h.pageSize) :
    rewriteAllRows rows h = (.error RowStore.rowTooLarge, h) := by
  rcases packRows_eq h.pageSize rows [] [] 0 with ⟨hfit, -⟩ | ⟨-, hpack⟩
  · have := hfit row hrow
    rw [pageBytes_eq] at this
    exact absurd this hlarge
  · rw [rewriteAllRows, hpack]

/-- Replacing the row with an id, when the new row fits a page. -/
theorem rewrite_changeRow_ok (hs : h.Sound) {d d' : Bool} {t' : Tuple}
    (hfind : findRow rid h.rows = some ⟨rid, t, d⟩)
    (hf : f ⟨rid, t, d⟩ = ⟨rid, t', d'⟩) (hrid : ∀ r, r.rid = rid → (f r).rid = rid)
    (hread : t'.length ≤ maxTupleValues) (hfit : pageBytes t' ≤ h.pageSize) :
    ∃ h', rewriteAllRows (changeRow h.rows rid f) h = (.ok (), h') ∧
      Becomes h h' (Function.update h.lookup rid (some (t', d'))) := by
  have hmem : ∀ row ∈ changeRow h.rows rid f, row ∈ h.rows ∨ row = ⟨rid, t', d'⟩ := by
    intro row hrow
    rcases mem_changeRow hrow with hrow | ⟨r, hr, hrid', rfl⟩
    · exact .inl hrow
    · obtain rfl : r = ⟨rid, t, d⟩ := List.inj_on_of_nodup_map hs.nodup hr
        (List.mem_of_find?_eq_some hfind) hrid'
      exact .inr hf
  have hold : rid < h.nextRowId := hs.rid_lt _ (List.mem_of_find?_eq_some hfind)
  have hmap := rowMap_changeRow (f := f) hfind (by rw [hf])
  rw [hf] at hmap
  obtain ⟨h', hok, hbec⟩ := rewriteAllRows_ok hs (changeRow h.rows rid f)
    (by rw [map_rid_changeRow hrid]; exact hs.nodup)
    (fun row hrow => (hmem row hrow).elim (hs.rid_lt row) (fun e => e ▸ hold))
    (fun row hrow => (hmem row hrow).elim (hs.readable row) (fun e => e ▸ hread))
    (fun row hrow => (hmem row hrow).elim hs.fits_row (fun e => e ▸ hfit))
  exact ⟨h', hok, hmap ▸ hbec⟩

theorem mem_changeRow_self (hfind : findRow rid rows = some row) :
    f row ∈ changeRow rows rid f := by
  induction rows with
  | nil => simp at hfind
  | cons r rows ih =>
    rw [changeRow_cons]
    by_cases hr : r.rid = rid
    · obtain rfl : r = row := by simpa [hr] using hfind
      simp [hr]
    · rw [if_neg hr]
      exact List.mem_cons_of_mem _ (ih (by simpa [hr] using hfind))

theorem get_spec (hs : h.Sound) (rid : ℕ) :
    get rid h =
      (match h.lookup rid with
        | none => .error RowStore.rowNotFound
        | some (_, true) => .error RowStore.rowIsDeleted
        | some (t, false) => .ok ⟨rid, t, false⟩, h) := by
  unfold get getIncludingDeleted
  rw [bind_apply, bind_ok hs.loadAllRows, lookup]
  rcases rowMap_find? h.rows rid with ⟨hfind, hmap⟩ | ⟨t, d, hfind, hmap⟩
  · rw [hfind, hmap]
    rfl
  · rw [hfind, hmap]
    cases d <;> rfl

theorem scan_spec (hs : h.Sound) :
    scan h = (.ok (h.rows.filter fun row => !row.deleted), h) := by
  unfold scan
  rw [bind_ok hs.loadAllRows]
  rfl

theorem update_spec (hs : h.Sound) (rid : ℕ) (ht : t.length ≤ maxTupleValues) :
    match h.lookup rid with
    | none => update rid t h = (.error RowStore.rowNotFound, h)
    | some (_, true) => update rid t h = (.error RowStore.rowIsDeleted, h)
    | some (_, false) =>
      if pageBytes t ≤ h.pageSize then
        ∃ h', update rid t h = (.ok (), h') ∧
          Becomes h h' (Function.update h.lookup rid (some (t, false)))
      else
        update rid t h = (.error RowStore.rowTooLarge, h) := by
  unfold update
  rw [bind_ok hs.loadAllRows]
  rcases rowMap_find? h.rows rid with ⟨hfind, hmap⟩ | ⟨told, d, hfind, hmap⟩
  · rw [hfind, lookup, hmap]
    rfl
  · rw [hfind, show h.lookup rid = some (told, d) from hmap]
    cases d with
    | true => rfl
    | false =>
      simp only [Bool.false_eq_true, if_false]
      split_ifs with hfit
      · exact rewrite_changeRow_ok hs hfind rfl (fun _ hr => hr) ht hfit
      · exact rewriteAllRows_large _
          (mem_changeRow_self (f := fun row => { row with tuple := t }) hfind) hfit

theorem delete_spec (hs : h.Sound) (rid : ℕ) :
    match h.lookup rid with
    | none => delete rid h = (.error RowStore.rowNotFound, h)
    | some (_, true) => delete rid h = (.ok (), h)
    | some (t, false) =>
      ∃ h', delete rid h = (.ok (), h') ∧
        Becomes h h' (Function.update h.lookup rid (some (t, true))) := by
  unfold delete
  rw [bind_ok hs.loadAllRows]
  rcases rowMap_find? h.rows rid with ⟨hfind, hmap⟩ | ⟨t, d, hfind, hmap⟩
  · rw [hfind, lookup, hmap]
    rfl
  · have hmem := List.mem_of_find?_eq_some hfind
    have hread := hs.readable _ hmem
    have hfit := hs.fits_row hmem
    rw [hfind, show h.lookup rid = some (t, d) from hmap]
    cases d with
    | true => rfl
    | false =>
      simp only [Bool.false_eq_true, if_false]
      exact rewrite_changeRow_ok hs hfind rfl (fun _ hr => hr) hread hfit

theorem restore_spec (hs : h.Sound) (hrid : row.rid < h.nextRowId)
    (ht : row.tuple.length ≤ maxTupleValues) : if pageBytes row.tuple ≤ h.pageSize then
      ∃ h', restore row h = (.ok (), h') ∧
        Becomes h h' (Function.update h.lookup row.rid (some (row.tuple, false)))
    else
      restore row h = (.error RowStore.rowTooLarge, h) := by
  have hnext := hs.next_lt
  have hmax : max h.nextRowId ((row.rid + 1) % 2 ^ 64) = h.nextRowId := by
    rw [Nat.mod_eq_of_lt (by omega)]
    exact max_eq_left (by omega)
  have hrestore : restore row h = rewriteAllRows (restoreInto h.rows row) h := by
    unfold restore
    rw [bind_ok hs.loadAllRows, bind_ok (modify_apply _ _), hmax]
  rw [hrestore, restoreInto]
  rcases rowMap_find? h.rows row.rid with ⟨hfind, hmap⟩ | ⟨told, d, hfind, hmap⟩
  · rw [hfind]
    split_ifs with hfit
    · have hnew : ∀ r ∈ h.rows ++ [{ row with deleted := false }],
          r ∈ h.rows ∨ r = { row with deleted := false } := by
        intro r hr
        simpa using hr
      obtain ⟨h', hok, hbec⟩ := rewriteAllRows_ok hs
        (h.rows ++ [{ row with deleted := false }])
        (by
          rw [List.map_append, List.nodup_append_comm]
          refine List.nodup_cons.mpr ⟨?_, hs.nodup⟩
          intro hmem
          obtain ⟨r, hr, heq⟩ := List.mem_map.mp hmem
          exact rowMap_eq_none.mp hmap r hr heq)
        (fun r hr => (hnew r hr).elim (hs.rid_lt r) (fun e => e ▸ hrid))
        (fun r hr => (hnew r hr).elim (hs.readable r) (fun e => e ▸ ht))
        (fun r hr => (hnew r hr).elim hs.fits_row (fun e => e ▸ hfit))
      refine ⟨h', hok, ?_⟩
      rwa [rowMap_append_singleton { row with deleted := false } hmap] at hbec
    · exact rewriteAllRows_large { row with deleted := false } (by simp) hfit
  · rw [hfind]
    split_ifs with hfit
    · exact rewrite_changeRow_ok hs hfind rfl (fun _ _ => rfl) ht hfit
    · exact rewriteAllRows_large _
        (mem_changeRow_self (f := fun _ => { row with deleted := false }) hfind) hfit

/-- The rows after an insertion, up to their order. -/
theorem addRow_rows_perm (hord : ordinal < h.pages.length) (row : Row) :
    (h.addRow ordinal row).rows.Perm (row :: h.rows) := by
  have hold : h.rows = (h.pages.take ordinal).flatten ++ h.pages[ordinal] ++
      (h.pages.drop (ordinal + 1)).flatten := by
    rw [rows]
    conv_lhs => rw [← List.take_append_drop ordinal h.pages, ← List.getElem_cons_drop hord]
    simp only [List.flatten_append, List.flatten_cons, List.append_assoc]
  have hnew : (h.addRow ordinal row).rows = (h.pages.take ordinal).flatten ++ h.pages[ordinal] ++
      row :: (h.pages.drop (ordinal + 1)).flatten := by
    simp [rows, addRow, List.modify_eq_take_cons_drop hord]
  rw [hold, hnew]
  exact List.perm_middle

theorem addRow_spec (hs : h.Sound) (hpage : h.pages[ordinal]? = some rows)
    (ht : t.length ≤ maxTupleValues)
    (hroom : RowStore.pageHeaderSize + usedBytes rows + entrySize (h.newRow t) ≤ h.pageSize) :
    (h.addRow ordinal (h.newRow t)).lookup =
        Function.update h.lookup h.nextRowId (some (t, false)) ∧
      (h.nextRowId + 1 < 2 ^ 64 → (h.addRow ordinal (h.newRow t)).Sound) := by
  obtain ⟨hord, -⟩ := List.getElem?_eq_some_iff.mp hpage
  have hperm := addRow_rows_perm hord (h.newRow t)
  have hfresh : h.nextRowId ∉ h.rows.map Row.rid := by
    intro hmem
    obtain ⟨row, hrow, heq⟩ := List.mem_map.mp hmem
    exact absurd (hs.rid_lt row hrow) (by omega)
  have hnodup : ((h.addRow ordinal (h.newRow t)).rows.map Row.rid).Nodup :=
    (hperm.map Row.rid).nodup_iff.mpr (List.nodup_cons.mpr ⟨hfresh, hs.nodup⟩)
  have hmem : ∀ row ∈ (h.addRow ordinal (h.newRow t)).rows, row = h.newRow t ∨ row ∈ h.rows :=
    fun row hrow => List.mem_cons.mp (hperm.mem_iff.mp hrow)
  refine ⟨?_, fun hnext => ⟨⟨hs.minSize, hs.maxSize, Nat.mod_lt _ (by omega), ?_⟩, hnodup, ?_, ?_⟩⟩
  · rw [lookup, rowMap_perm hperm hnodup, rowMap_cons]
    rfl
  · intro page hmem
    have hmodify : h.pages.modify ordinal (· ++ [h.newRow t]) =
        h.pages.set ordinal (rows ++ [h.newRow t]) := by
      rw [List.modify_eq_set_getElem?, hpage]
      rfl
    change page ∈ h.pages.modify ordinal _ at hmem
    rw [hmodify] at hmem
    rcases List.mem_or_eq_of_mem_set hmem with hmem | rfl
    · exact hs.fits page hmem
    · refine ⟨?_, fun r hr => ?_⟩
      · change RowStore.pageHeaderSize + _ ≤ h.pageSize
        simpa [Nat.add_assoc] using hroom
      · rcases List.mem_append.mp hr with hr | hr
        · exact (hs.fits rows (List.mem_of_getElem? hpage)).rid_lt r hr
        · rw [List.mem_singleton.mp hr]
          exact hs.next_lt
  · intro row hrow
    change row.rid < (h.nextRowId + 1) % 2 ^ 64
    rw [Nat.mod_eq_of_lt hnext]
    rcases hmem row hrow with rfl | hrow
    · exact Nat.lt_succ_self _
    · exact Nat.lt_succ_of_lt (hs.rid_lt row hrow)
  · intro row hrow
    rcases hmem row hrow with rfl | hrow
    · exact ht
    · exact hs.readable row hrow

theorem addPage_rows (h : Heap) : h.addPage.rows = h.rows := by
  simp [rows, addPage]

theorem Sound.addPage (hs : h.Sound) : h.addPage.Sound :=
  ⟨hs.toValid.addPage, by rw [addPage_rows]; exact hs.nodup,
    by rw [addPage_rows]; exact hs.rid_lt, by rw [addPage_rows]; exact hs.readable⟩

/-- An insertion fails exactly on a row that fits no page; otherwise it stores
the row under the next id. -/
theorem insert_spec (hs : h.Sound) (ht : t.length ≤ maxTupleValues) :
    if pageBytes t ≤ h.pageSize then
      ∃ h', insert t h = (.ok h.nextRowId, h') ∧
        h'.lookup = Function.update h.lookup h.nextRowId (some (t, false)) ∧
        h'.nextRowId = (h.nextRowId + 1) % 2 ^ 64 ∧ h'.pageSize = h.pageSize ∧
        (h.nextRowId + 1 < 2 ^ 64 → h'.Sound)
    else
      insert t h = (.error RowStore.entryTooLarge, h) := by
  unfold insert
  rw [pageBytes_eq]
  by_cases hfit : pageBytes t ≤ h.pageSize
  · have hsmall : ¬ pageBytes (h.newRow t).tuple > h.pageSize := Nat.not_lt.mpr hfit
    rw [if_pos hfit, if_neg hsmall]
    cases hfind : h.findPage (entrySize (h.newRow t)) with
    | none =>
      have hpage : h.addPage.pages[h.pages.length]? = some [] := by simp [Heap.addPage]
      have hadd := addRow_spec hs.addPage hpage ht (by
        rw [← pageBytes_eq] at hsmall
        exact Nat.le_of_not_lt hsmall)
      rw [show h.addPage.lookup = h.lookup from congrArg rowMap h.addPage_rows] at hadd
      exact ⟨_, rfl, hadd.1, rfl, rfl, hadd.2⟩
    | some ordinal =>
      obtain ⟨rows, hpage, hroom⟩ := RowStore.findPage_some hfind
      have hread : readRows rows = .ok rows := by
        unfold readRows
        rw [if_pos]
        simp only [List.all_eq_true, decide_eq_true_eq]
        exact fun row hrow => hs.readable row
          (List.mem_flatten.mpr ⟨rows, List.mem_of_getElem? hpage, hrow⟩)
      have hadd := addRow_spec hs hpage ht hroom
      simp only [hpage, Option.getD_some, hread]
      exact ⟨_, rfl, hadd.1, rfl, rfl, hadd.2⟩
  · have hlarge : pageBytes (h.newRow t).tuple > h.pageSize := Nat.lt_of_not_le hfit
    rw [if_neg hfit, if_pos hlarge]

end Heap

end CourseDb

import CourseDb.Storage.RowIds
import CourseDb.Storage.RowStoreMap

/-! # The counters of a row store

The row ids of a store come from a 64-bit counter that is kept on the metadata
page. They stay different as long as the counter does not run over. A store also
counts its data pages and its live rows. The metadata page records the counters
after every call, except that a restoration raises them before it finds that the
row fits no page.
-/

namespace CourseDb.RowStore

open Heap

/-- The rows on the data pages of the file, deleted rows included. -/
def Stores (s : RowStore) (rows : List Row) : Prop :=
  ∃ pages : List (List Row), (∀ page ∈ pages, PageFits s.pageSize page) ∧
    s.pageManager.pages.tail = pages.map (dataPage s.pageSize) ∧ rows = pages.flatten

/-- The device accepts the pages the call allocates, and row ids are 64-bit numbers. -/
def Admissible (s : RowStore) (op : Op) : Prop :=
  (step s op).1 ≠ .error PageManager.allocationFailed ∧
    match op with
    | .restore row => row.rid < 2 ^ 64
    | _ => True

/-- No two rows of a scan have the same id. -/
def UniqueIds (s : RowStore) : Prop :=
  ∀ rows, (scanIncludingDeleted s).1 = .ok rows → (rows.map Row.rid).Nodup

/-- The ids are different after the call, and an id that it returns is new. -/
def NoReuse (s : RowStore) (op : Op) : Prop :=
  UniqueIds (step s op).2 ∧
    ∀ tuple rid, op = .insert tuple → (step s op).1 = .rid rid →
      ∃ rows, Stores s rows ∧ rid ∉ rows.map Row.rid

/-- The call leaves the largest row id unused. -/
def InRange (s : RowStore) : Op → Prop
  | .insert _ => s.nextRowId + 1 < 2 ^ 64
  | .restore row => row.rid + 1 < 2 ^ 64
  | _ => True

instance (s : RowStore) : ∀ op, Decidable (Admissible s op)
  | .restore _ => instDecidableAnd
  | .insert _ | .update _ _ | .delete _ | .get _ | .scan | .reopen => instDecidableAnd

instance (s : RowStore) : ∀ op, Decidable (InRange s op)
  | .insert _ | .restore _ => Nat.decLt _ _
  | .update _ _ | .delete _ | .get _ | .scan | .reopen => instDecidableTrue

/-- The ids on the data pages are different and below the counter of the metadata page,
which the counter in memory may have passed. -/
structure Numbered (h : Heap) (next : ℕ) : Prop where
  valid : h.Valid
  count_lt : h.pages.length < 2 ^ 64
  next_le : next ≤ h.nextRowId
  counted : Counted { h with nextRowId := next }

/-- The store encodes a heap with numbered rows. -/
def Encodes (s : RowStore) : Prop :=
  ∃ h next stored active, Numbered h next ∧
    s = encoded h (metadataPage h.pageSize next h.pages.length stored) active

section Steps

variable {s : RowStore} {h : Heap} {next stored a b rid : ℕ}

theorem Numbered.heap_counted (hn : Numbered h next) : h.Counted where
  nodup := hn.counted.nodup
  rid_lt row hrow := (hn.counted.rid_lt row hrow).trans_le hn.next_le
  next_lt := hn.valid.next_lt

theorem Numbered.raiseNextRowId (hn : Numbered h next) (rid : ℕ) :
    Numbered (h.raiseNextRowId rid) next where
  valid := hn.valid.raiseNextRowId rid
  count_lt := hn.count_lt
  next_le := hn.next_le.trans (le_max_left _ _)
  counted := hn.counted

theorem stores_encoded (hv : h.Valid) (page : ByteString) (a : ℕ) :
    Stores (encoded h page a) h.rows :=
  ⟨h.pages, hv.fits, rfl, rfl⟩

theorem Encodes.uniqueIds (henc : Encodes s) : UniqueIds s := by
  obtain ⟨h, next, stored, active, hn, rfl⟩ := henc
  intro rows hscan
  unfold scanIncludingDeleted at hscan
  rw [loadAllRows_encoded hn.valid] at hscan
  rw [readRows_ok hscan]
  exact hn.counted.nodup

theorem not_uniqueIds (ids : List ℕ)
    (hids : (scanIncludingDeleted s).1.toOption.map (List.map Row.rid) = some ids)
    (hdup : ¬ ids.Nodup) : ¬ UniqueIds s := by
  intro hunique
  cases hscan : (scanIncludingDeleted s).1 with
  | error e =>
    rw [hscan] at hids
    cases hids
  | ok rows =>
    rw [hscan] at hids
    exact hdup (Option.some.inj hids ▸ hunique rows hscan)

theorem answer_eq_rid {r : Except Status ℕ} (h : answer .rid r = .rid rid) : r = .ok rid := by
  cases r with
  | error e => cases h
  | ok v => exact congrArg Except.ok (Answer.rid.inj h)

theorem Encodes.of_outcome {α : Type} {r : Except Status α × RowStore}
    {q : Except Status α × Heap} {f : α → Answer} (hn : Numbered h next)
    (hout : Outcome h (metadataPage h.pageSize next h.pages.length stored) a b r q)
    (hio : answer f r.1 ≠ .error PageManager.allocationFailed) (hq : q.2.Counted) :
    Encodes r.2 := by
  rcases hout with ⟨s, rfl, -⟩ | ⟨out, rfl, -⟩ | ⟨v, h', rfl, rfl, hv, hg⟩
  · exact absurd rfl hio
  · exact ⟨h, next, stored, a, hn, rfl⟩
  · have hcount := hg.count_lt hn.valid.pageSize_pos hn.count_lt
    exact ⟨h', h'.nextRowId, b, b, ⟨hv, hcount, le_rfl, hq⟩, rfl⟩

theorem step_encodes {op : Op} (henc : Encodes s) (hadm : Admissible s op) (hrange : InRange s op) :
    Encodes (step s op).2 := by
  obtain ⟨h, next, stored, a, hn, rfl⟩ := henc
  have hv := hn.valid
  have hc := hn.heap_counted
  cases op with
  | insert tuple =>
    exact Encodes.of_outcome hn (insert_outcome hv _ a tuple) hadm.1
      (Heap.insert_counted hc hrange tuple)
  | update rid tuple =>
    exact Encodes.of_outcome hn (update_outcome hv _ a rid tuple) hadm.1
      (Heap.update_counted hc rid tuple)
  | delete rid =>
    exact Encodes.of_outcome hn (delete_outcome hv _ a rid) hadm.1 (Heap.delete_counted hc rid)
  | restore row =>
    have hq := Heap.restore_counted hc hrange
    rcases readRows_cases h.rows with ⟨e, hread⟩ | hread
    · exact Encodes.of_outcome (b := 0) hn (.inr (.inl (restore_unread hv _ a row hread)))
        hadm.1 hq
    · exact Encodes.of_outcome (hn.raiseNextRowId row.rid)
        (restore_outcome hv _ a hadm.2 hread rfl) hadm.1 hq
  | get rid =>
    obtain ⟨out, hstore, -⟩ := get_kept hv
      (metadataPage h.pageSize next h.pages.length stored) a rid
    exact ⟨h, next, stored, a, hn, congrArg Prod.snd hstore⟩
  | scan =>
    obtain ⟨out, hstore, -⟩ := scan_kept hv
      (metadataPage h.pageSize next h.pages.length stored) a
    exact ⟨h, next, stored, a, hn, congrArg Prod.snd hstore⟩
  | reopen =>
    have hopen := openStore_encoded hv hn.count_lt hn.counted.next_lt stored a
    refine ⟨{ h with nextRowId := next }, next, stored, stored % 256 ^ 8,
      ⟨⟨hv.minSize, hv.maxSize, hn.counted.next_lt, hv.fits⟩, hn.count_lt, le_rfl, hn.counted⟩, ?_⟩
    exact congrArg Prod.snd hopen

/-- A returned id is the counter of the store, which no row has reached. -/
theorem insert_fresh {tuple : Tuple} (henc : Encodes s)
    (hrid : (step s (.insert tuple)).1 = .rid rid) :
    ∃ rows, Stores s rows ∧ rid ∉ rows.map Row.rid := by
  obtain ⟨h, next, stored, a, hn, rfl⟩ := henc
  have hok := (insert_outcome hn.valid _ a tuple).result (answer_eq_rid hrid)
  obtain rfl : rid = h.nextRowId := by
    rcases insert_cases tuple h with ⟨e, herr⟩ | ⟨h', hins, -⟩
    · rw [herr] at hok
      cases hok
    · rw [hins] at hok
      exact (Except.ok.inj hok).symm
  refine ⟨h.rows, stores_encoded hn.valid _ a, fun hmem => ?_⟩
  obtain ⟨row, hrow, hsame⟩ := List.mem_map.mp hmem
  exact Nat.lt_irrefl _ (hsame ▸ hn.heap_counted.rid_lt row hrow)

theorem initial_encodes {pageSize : ℕ} (hmin : 36 ≤ pageSize) (hmax : pageSize < 2 ^ 32) :
    Encodes (initial pageSize) := by
  rw [initial, openStore_new hmin hmax]
  refine ⟨empty pageSize, 0, 0, 0, ⟨(empty_sound hmin hmax).toValid, ?_, le_rfl, ?_⟩, rfl⟩
  · exact Nat.two_pow_pos 64
  · exact empty_counted pageSize

end Steps

/-- As long as no call takes the largest row id, no row id is given to two rows. -/
theorem row_ids_never_reused {pageSize : ℕ} (hmin : 36 ≤ pageSize) (hmax : pageSize < 2 ^ 32)
    (ops : List Op) (hadm : Along step Admissible (initial pageSize) ops)
    (hrange : Along step InRange (initial pageSize) ops) :
    Along step NoReuse (initial pageSize) ops := by
  refine Along.imp (I := Encodes) (fun s op henc hboth => ?_) (initial_encodes hmin hmax)
    (hadm.and hrange)
  have hnext := step_encodes henc hboth.1 hboth.2
  refine ⟨⟨hnext.uniqueIds, ?_⟩, hnext⟩
  rintro tuple rid rfl hrid
  exact insert_fresh henc hrid

/-- A row is put back under the last id but two. -/
theorem row_ids_never_reused_late :
    Along step NoReuse (initial 64)
      [.insert [.int 7], .restore ⟨2 ^ 64 - 3, [.int 8], false⟩, .reopen, .insert [.int 9]] :=
  row_ids_never_reused (by decide) (by decide) _ (by decide +kernel) (by decide +kernel)

/-- Behind a row with the last id but one the counter runs over, and the third insertion
returns the id of the first row. -/
theorem restored_id_leads_to_reuse :
    ¬ Along step NoReuse (initial 64)
      [.insert [.int 7], .restore ⟨2 ^ 64 - 2, [.int 8], false⟩, .insert [.int 9],
        .insert [.int 10]] := by
  rintro ⟨-, -, -, ⟨hunique, -⟩, -⟩
  exact not_uniqueIds [0, 2 ^ 64 - 2, 2 ^ 64 - 1, 0] (by decide +kernel) (by decide) hunique

end CourseDb.RowStore

namespace CourseDb

variable {row : Row}

namespace Heap

variable {h : Heap} {rows : List Row} {rid : ℕ}

def liveCount (rows : List Row) : ℕ := (live rows).length

theorem liveCount_cons (row : Row) (rows : List Row) :
    liveCount (row :: rows) = liveCount rows + if row.deleted then 0 else 1 := by
  unfold liveCount live
  cases hrow : row.deleted <;> simp [hrow]

theorem liveCount_append_live (hlive : row.deleted = false) :
    liveCount (rows ++ [row]) = liveCount rows + 1 := by
  simp [liveCount, live, hlive]

theorem liveCount_perm {xs ys : List Row} (hperm : xs.Perm ys) : liveCount xs = liveCount ys :=
  (hperm.filter _).length_eq

/-- A change of one row moves the count by what it does to the row's flag. -/
theorem liveCount_changeRow (f : Row → Row) (hfind : findRow rid rows = some row) :
    liveCount (changeRow rows rid f) + (if row.deleted then 0 else 1) =
      liveCount rows + if (f row).deleted then 0 else 1 := by
  induction rows with
  | nil => cases hfind
  | cons r rows ih =>
    rw [changeRow_cons]
    by_cases hrid : r.rid = rid
    · obtain rfl : r = row := by simpa [hrid] using hfind
      rw [if_pos hrid, liveCount_cons, liveCount_cons]
      omega
    · have := ih (by simpa [hrid] using hfind)
      rw [if_neg hrid, liveCount_cons, liveCount_cons]
      omega

theorem mem_changeRow_of_find (f : Row → Row) (hfind : findRow rid rows = some row) :
    f row ∈ changeRow rows rid f := by
  induction rows with
  | nil => cases hfind
  | cons r rows ih =>
    rw [changeRow_cons]
    by_cases hrid : r.rid = rid
    · obtain rfl : r = row := by simpa [hrid] using hfind
      rw [if_pos hrid]
      exact List.mem_cons_self
    · rw [if_neg hrid]
      exact List.mem_cons_of_mem _ (ih (by simpa [hrid] using hfind))

/-- A restoration leaves the old rows and the restored one. -/
theorem restoreInto_rows (rows : List Row) (row : Row) :
    { row with deleted := false } ∈ restoreInto rows row ∧
      ∀ r ∈ restoreInto rows row, r ∈ rows ∨ r = { row with deleted := false } := by
  unfold restoreInto
  cases hfind : findRow row.rid rows with
  | none => simp
  | some old =>
    refine ⟨mem_changeRow_of_find (fun _ => { row with deleted := false }) hfind, fun r hr => ?_⟩
    rcases mem_changeRow hr with hmem | ⟨_, -, -, rfl⟩
    · exact .inl hmem
    · exact .inr rfl

/-- Packing after a restoration fails exactly if the restored row fits no page. -/
theorem packRows_restoreInto (hv : h.Valid) (row : Row) :
    if RowStore.pageHeaderSize + entrySize row ≤ h.pageSize then
      ∃ batches, RowStore.packRows h.pageSize (restoreInto h.rows row) [] [] 0 = .ok batches
    else RowStore.packRows h.pageSize (restoreInto h.rows row) [] [] 0 =
      .error RowStore.rowTooLarge := by
  obtain ⟨hnew, hrows⟩ := restoreInto_rows h.rows row
  have hsize : entrySize { row with deleted := false } = entrySize row := by
    rw [RowStore.entrySize_eq, RowStore.entrySize_eq]
  rcases packRows_eq h.pageSize (restoreInto h.rows row) [] [] 0 with
    ⟨hall, hok⟩ | ⟨⟨r, hr, hlarge⟩, herr⟩
  · have hfits := hall _ hnew
    rw [hsize] at hfits
    rw [if_pos hfits]
    exact hok
  · have hlarge : ¬ RowStore.pageHeaderSize + entrySize row ≤ h.pageSize := by
      rcases hrows r hr with hold | rfl
      · have := hv.entry_le hold
        omega
      · rw [hsize] at hlarge
        omega
    rw [if_neg hlarge]
    exact herr

theorem liveCount_lt (hv : h.Valid) (hd : h.WithinDevice) : liveCount h.rows + 1 < 2 ^ 64 := by
  have hlive : liveCount h.rows ≤ h.rows.length := List.length_filter_le _ _
  have hrows := hv.rows_length_lt hd
  omega

end Heap

namespace RowStore

open Heap

/-- Whether a restoration adds a live row: its id has no live row. -/
theorem restoreInto_snd (rows : List Row) (row : Row) :
    (restoreInto rows row).2 = true ↔
      ∀ old, findRow row.rid rows = some old → old.deleted = true := by
  have hfind := findRowIndexById_eq rows row.rid
  unfold restoreInto
  cases hold : findRow row.rid rows with
  | none =>
    rw [hold] at hfind
    rw [hfind]
    simp
  | some old =>
    rw [hold] at hfind
    obtain ⟨index, hok, -, hget⟩ := hfind
    rw [hok]
    simp [hget]

theorem liveCount_restoreInto (rows : List Row) (row : Row) :
    liveCount (Heap.restoreInto rows row) =
      liveCount rows + if (restoreInto rows row).2 then 1 else 0 := by
  have hsnd := restoreInto_snd rows row
  unfold Heap.restoreInto
  cases hold : findRow row.rid rows with
  | none =>
    rw [if_pos (hsnd.mpr fun old h => by rw [hold] at h; cases h)]
    exact liveCount_append_live rfl
  | some old =>
    have hcount := liveCount_changeRow (fun _ => { row with deleted := false }) hold
    cases hdel : old.deleted with
    | true =>
      rw [if_pos (hsnd.mpr fun r hr => by rw [hold] at hr; exact Option.some.inj hr ▸ hdel)]
      simpa [hdel] using hcount
    | false =>
      rw [if_neg fun h => by simp [hsnd.mp h old hold] at hdel]
      simpa [hdel] using hcount

/-- The counters agree with the pages of the file. -/
def CountersMatch (s : RowStore) : Prop :=
  (∃ rows, Stores s rows ∧ s.activeRowCount = liveCount rows) ∧
    s.dataPageCount + 1 = s.pageManager.pages.length

/-- What a call answers and leaves behind is true to the data: the counters match, an
error has changed neither the active row count nor the next id, and the metadata page
has stayed as it was or records the counters. -/
structure TrueCounters (s : RowStore) (r : Answer × RowStore) : Prop where
  counters : CountersMatch r.2
  refused : ∀ e, r.1 = .error e →
    r.2.activeRowCount = s.activeRowCount ∧ r.2.nextRowId = s.nextRowId
  written : r.2.pageManager.pages[metadataPageId]? ≠ s.pageManager.pages[metadataPageId]? →
    r.2.pageManager.pages[metadataPageId]? =
      some (metadataPage r.2.pageSize r.2.nextRowId r.2.dataPageCount r.2.activeRowCount)

/-- The call restores a row that fits no page, under an id that has no live row or has not
been given out yet. -/
def RestoresTooLarge (s : RowStore) : Op → Prop
  | .restore row => s.pageSize < pageHeaderSize + entrySize row ∧
      ∃ rows, (loadAllRows s).1 = .ok rows ∧
        ((∀ old, findRow row.rid rows = some old → old.deleted = true) ∨
          s.nextRowId < (row.rid + 1) % 2 ^ 64)
  | _ => False

abbrev exactPage (h : Heap) : ByteString := metadataOf h (liveCount h.rows)

abbrev exactStore (h : Heap) : RowStore := encoded h (exactPage h) (liveCount h.rows)

/-- The store encodes a heap, and its counters and its metadata page are those of the heap. -/
def Exact (s : RowStore) : Prop :=
  ∃ h : Heap, h.Valid ∧ h.WithinDevice ∧ s = exactStore h

section Steps

variable {s : RowStore} {h h' : Heap} {α : Type} {r : Except Status α × RowStore}
  {q : Except Status α × Heap} {f : α → Answer} {tuple : Tuple} {rid : ℕ}

theorem countersMatch_encoded (hv : h.Valid) (page : ByteString) :
    CountersMatch (encoded h page (liveCount h.rows)) := by
  refine ⟨⟨h.rows, stores_encoded hv page _, rfl⟩, ?_⟩
  change h.pages.length + 1 = (page :: h.pages.map (dataPage h.pageSize)).length
  rw [List.length_cons, List.length_map]

theorem exact_of_kept (hv : h.Valid) (hd : h.WithinDevice)
    (hkept : Kept h (exactPage h) (liveCount h.rows) r q) :
    Exact (r.map (answer f) id).2 ∧
      TrueCounters (exactStore h) (r.map (answer f) id) := by
  obtain ⟨out, rfl, -⟩ := hkept
  refine ⟨⟨h, hv, hd, rfl⟩, countersMatch_encoded hv _, fun _ _ => ⟨rfl, rfl⟩, fun hne => ?_⟩
  exact absurd rfl hne

theorem exact_of_written {n : ℕ} (hf : ∀ v e, f v ≠ .error e) (hd : h.WithinDevice)
    (hwritten : Written h n r q) (hn : ∀ v h', q = (.ok v, h') → h'.Valid → h'.WithinDevice →
      n = liveCount h'.rows) :
    Exact (r.map (answer f) id).2 ∧ TrueCounters s (r.map (answer f) id) := by
  obtain ⟨v, h', rfl, rfl, hv, hg⟩ := hwritten
  obtain rfl := hn v h' rfl hv (hg.withinDevice hd)
  refine ⟨⟨h', hv, hg.withinDevice hd, rfl⟩, countersMatch_encoded hv _, fun e he => ?_,
    fun _ => rfl⟩
  exact absurd he (hf v e)

theorem exact_of_outcome {n : ℕ} (hf : ∀ v e, f v ≠ .error e) (hv : h.Valid)
    (hd : h.WithinDevice)
    (hout : Outcome h (exactPage h) (liveCount h.rows) n r q)
    (hio : answer f r.1 ≠ .error PageManager.allocationFailed)
    (hn : ∀ v h', q = (.ok v, h') → h'.Valid → h'.WithinDevice → n = liveCount h'.rows) :
    Exact (r.map (answer f) id).2 ∧
      TrueCounters (exactStore h) (r.map (answer f) id) := by
  rcases hout with ⟨s, rfl, -⟩ | hkept | hwritten
  · exact absurd rfl hio
  · exact exact_of_kept hv hd hkept
  · exact exact_of_written hf hd hwritten hn

section

variable (hv : h.Valid) (hd : h.WithinDevice)
  (hs : s = exactStore h)
include hv hd hs

theorem insert_exact (hio : (step s (.insert tuple)).1 ≠ .error PageManager.allocationFailed) :
    Exact (step s (.insert tuple)).2 ∧ TrueCounters s (step s (.insert tuple)) := by
  subst hs
  refine exact_of_outcome (by simp) hv hd (insert_outcome hv _ _ tuple) hio ?_
  intro rid h' hq hv' hd'
  rcases insert_cases tuple h with ⟨e, herr⟩ | ⟨h₁, hok, hperm, -⟩
  · rw [herr] at hq
    cases hq
  · rw [hok] at hq
    cases hq
    have hcount := liveCount_perm hperm
    have hlt := liveCount_lt hv' hd'
    rw [liveCount_cons, if_neg (by simp [newRow])] at hcount
    rw [Nat.mod_eq_of_lt (by omega), hcount]

theorem update_exact (hio : (step s (.update rid tuple)).1 ≠ .error PageManager.allocationFailed) :
    Exact (step s (.update rid tuple)).2 ∧ TrueCounters s (step s (.update rid tuple)) := by
  subst hs
  refine exact_of_outcome (by simp) hv hd (update_outcome hv _ _ rid tuple) hio ?_
  intro _ h' hq _ _
  rcases update_cases rid tuple h with ⟨e, herr⟩ | ⟨row, h₁, hfind, hlive, -, hok, hrows, -⟩
  · rw [herr] at hq
    cases hq
  · rw [hok] at hq
    cases hq
    have hcount := liveCount_changeRow (fun row => { row with tuple }) hfind
    rw [hrows]
    exact (Nat.add_right_cancel hcount).symm

theorem delete_exact (hio : (step s (.delete rid)).1 ≠ .error PageManager.allocationFailed) :
    Exact (step s (.delete rid)).2 ∧ TrueCounters s (step s (.delete rid)) := by
  subst hs
  by_cases hlive : ∃ row, findRow rid h.rows = some row ∧ row.deleted = false
  · obtain ⟨row, hrow, hlive⟩ := hlive
    rcases readRows_cases h.rows with ⟨e, hread⟩ | hread
    · exact exact_of_kept hv hd (delete_unread hv _ _ rid hread)
    · have hwritten := (delete_written hv (exactPage h) (liveCount h.rows)
        hread hrow hlive).resolve_left fun ⟨s', hfail, _⟩ => hio (by
          change answer _ (delete rid _).1 = _
          rw [hfail]
          rfl)
      refine exact_of_written (by simp) hd hwritten ?_
      intro _ h' hq _ _
      have hload := (loadAllRows_ok hv (metadataOf h 0) 0 hread).2
      rcases delete_cases (get_of_find hload hrow hlive) with ⟨e, herr⟩ | ⟨h₁, -, -, hok, hrows, -⟩
      · rw [herr] at hq
        cases hq
      · rw [hok] at hq
        cases hq
        have hcount := liveCount_changeRow (fun row => { row with deleted := true }) hrow
        have hlt := liveCount_lt hv hd
        rw [hlive, if_neg Bool.false_ne_true, if_pos rfl] at hcount
        rw [hrows]
        omega
  · push Not at hlive
    exact exact_of_kept hv hd (delete_kept hv _ _ fun row hrow => by simpa using hlive row hrow)

end

/-- A row that fits no page is refused, after the counters in memory have been raised. -/
theorem restore_tooLarge (hv : h.Valid) (page : ByteString) (a : ℕ)
    (hread : readRows h.rows = .ok h.rows) (hlarge : h.pageSize < pageHeaderSize + entrySize row) :
    restore row (encoded h page a) = (.error rowTooLarge, encoded (h.raiseNextRowId row.rid) page
      (if (restoreInto h.rows row).2 then (a + 1) % 2 ^ 64 else a)) := by
  have hpack := packRows_restoreInto hv row
  rw [if_neg (by omega)] at hpack
  rw [(restore_encoded hv page a row hread).1]
  exact (rewriteAllRows_refused (h := h.raiseNextRowId row.rid) hpack page _).1

theorem restore_fits (hv : h.Valid) (page : ByteString) (a : ℕ) (hrid : row.rid < 2 ^ 64)
    (hread : readRows h.rows = .ok h.rows) (hfit : pageHeaderSize + entrySize row ≤ h.pageSize) :
    OutOfPages (restore row (encoded h page a)) ∨
      Written (h.raiseNextRowId row.rid)
        (if (restoreInto h.rows row).2 then (a + 1) % 2 ^ 64 else a)
        (restore row (encoded h page a)) (Heap.restore row h) := by
  have hpack := packRows_restoreInto hv row
  rw [if_pos hfit] at hpack
  obtain ⟨batches, hpack⟩ := hpack
  obtain ⟨hstore, hheap⟩ := restore_encoded hv page a row hread
  rw [hstore, hheap]
  exact rewriteAllRows_written (hv.raiseNextRowId row.rid) page _ hpack
    (restoreInto_rid_lt (fun r hr => hv.rid_lt hr) hrid)

theorem restore_exact (hv : h.Valid) (hd : h.WithinDevice)
    (hs : s = exactStore h)
    (hadm : Admissible s (.restore row)) (hfair : ¬ RestoresTooLarge s (.restore row)) :
    Exact (step s (.restore row)).2 ∧ TrueCounters s (step s (.restore row)) := by
  subst hs
  rcases readRows_cases h.rows with ⟨e, hread⟩ | hread
  · exact exact_of_kept hv hd (restore_unread hv _ _ row hread)
  by_cases hfit : pageHeaderSize + entrySize row ≤ h.pageSize
  · have hwritten := (restore_fits hv (exactPage h) (liveCount h.rows)
      hadm.2 hread hfit).resolve_left fun ⟨s', hfail, _⟩ => hadm.1 (by
        change answer _ (restore row _).1 = _
        rw [hfail]
        rfl)
    refine exact_of_written (h := h.raiseNextRowId row.rid) (by simp) hd hwritten ?_
    intro _ h' hq hv' hd'
    rcases restore_cases row h with ⟨e, h₁, herr, -⟩ | ⟨h₁, hok, hrows, -⟩
    · rw [herr] at hq
      cases hq
    · rw [hok] at hq
      cases hq
      have hcount := liveCount_restoreInto h.rows row
      have hlt := liveCount_lt hv' hd'
      rw [hrows] at hlt ⊢
      split_ifs at hcount ⊢
      · rw [Nat.mod_eq_of_lt (by omega), hcount]
      · exact hcount.symm
  · -- The row is refused; neither counter is raised for it.
    have hload := (loadAllRows_ok hv (exactPage h) (liveCount h.rows) hread).1
    have hpast : ¬ ((∀ old, findRow row.rid h.rows = some old →
        old.deleted = true) ∨ h.nextRowId < (row.rid + 1) % 2 ^ 64) := by
      intro hraise
      exact hfair ⟨not_le.mp hfit, h.rows, congrArg Prod.fst hload, hraise⟩
    rw [not_or, ← restoreInto_snd] at hpast
    have hrefuse := restore_tooLarge hv (exactPage h) (liveCount h.rows) hread
      (not_le.mp hfit)
    have hsame : h.raiseNextRowId row.rid = h := by
      rw [raiseNextRowId, max_eq_left (not_lt.mp hpast.2)]
    rw [if_neg hpast.1, hsame] at hrefuse
    exact exact_of_kept (q := (.error rowTooLarge, h)) hv hd ⟨_, hrefuse, rfl⟩

theorem restore_not_true (hex : Exact s) (hbad : RestoresTooLarge s (.restore row)) :
    ¬ TrueCounters s (step s (.restore row)) := by
  obtain ⟨h, hv, hd, rfl⟩ := hex
  obtain ⟨hlarge, rows, hload, hraise⟩ := hbad
  rw [loadAllRows_encoded hv] at hload
  obtain rfl := readRows_ok hload
  have hrefuse := restore_tooLarge hv (exactPage h) (liveCount h.rows) hload hlarge
  intro htrue
  have hlt := liveCount_lt hv hd
  obtain ⟨hactive, hnext⟩ := htrue.refused rowTooLarge (by
    change answer _ (restore row _).1 = _
    rw [hrefuse]
    rfl)
  change (restore row _).2.activeRowCount = liveCount h.rows at hactive
  change (restore row _).2.nextRowId = h.nextRowId at hnext
  rw [hrefuse] at hactive hnext
  rcases hraise with hdead | hless
  · change (if _ then _ else _) = _ at hactive
    rw [if_pos ((restoreInto_snd h.rows row).mpr hdead), Nat.mod_eq_of_lt (by omega)] at hactive
    omega
  · change max h.nextRowId ((row.rid + 1) % 2 ^ 64) = h.nextRowId at hnext
    change h.nextRowId < (row.rid + 1) % 2 ^ 64 at hless
    omega

theorem step_exact {op : Op} (hex : Exact s) (hadm : Admissible s op)
    (hfair : ¬ RestoresTooLarge s op) : Exact (step s op).2 ∧ TrueCounters s (step s op) := by
  obtain ⟨h, hv, hd, hs⟩ := hex
  cases op with
  | insert tuple => exact insert_exact hv hd hs hadm.1
  | update rid tuple => exact update_exact hv hd hs hadm.1
  | delete rid => exact delete_exact hv hd hs hadm.1
  | restore row => exact restore_exact hv hd hs hadm hfair
  | get rid =>
    subst hs
    exact exact_of_kept hv hd (get_kept hv _ _ rid)
  | scan =>
    subst hs
    exact exact_of_kept hv hd (scan_kept hv _ _)
  | reopen =>
    subst hs
    have hlt := liveCount_lt hv hd
    have hcount := lt_of_within_device hv.pageSize_pos hd
    have hopen := openStore_encoded hv (by omega) hv.next_lt (liveCount h.rows) (liveCount h.rows)
    rw [Nat.mod_eq_of_lt (by omega)] at hopen
    exact exact_of_kept (q := (.ok (), h)) hv hd ⟨_, hopen, rfl⟩

end Steps

theorem initial_exact {pageSize : ℕ} (hmin : 36 ≤ pageSize) (hmax : pageSize < 2 ^ 32) :
    Exact (initial pageSize) := by
  rw [initial, openStore_new hmin hmax]
  refine ⟨empty pageSize, (empty_sound hmin hmax).toValid, ?_, rfl⟩
  simp only [WithinDevice, empty, List.length_nil, pageFileHeaderSize, maxFileOffset]
  omega

/-- The calls of a run are true to the data exactly if none of them restores a row that fits
no page under an id that has no live row or has not been given out yet. -/
theorem counters_true_iff {pageSize : ℕ} (hmin : 36 ≤ pageSize) (hmax : pageSize < 2 ^ 32)
    (ops : List Op) (hadm : Along step Admissible (initial pageSize) ops) :
    Along step (fun s op => TrueCounters s (step s op)) (initial pageSize) ops ↔
      Along step (fun s op => ¬ RestoresTooLarge s op) (initial pageSize) ops := by
  refine Along.iff_of_step (I := Exact) (fun s op hex hop => ⟨fun htrue hbad => ?_, fun hfair => ?_⟩)
    (fun s op hex hop hfair => (step_exact hex hop hfair).1) (initial_exact hmin hmax) hadm
  · cases op with
    | restore row => exact restore_not_true hex hbad htrue
    | insert | update | delete | get | scan | reopen => exact hbad
  · exact (step_exact hex hop hfair).2

/-- A page has no room for this value. -/
def largeValue : Value := .string (List.replicate 40 0)

/-- An update with a row that fits no page is refused, a restoration is not. -/
theorem counters_true_iff_page64 :
    Along step (fun s op => TrueCounters s (step s op)) (initial 64)
      [.insert [.int 7], .update 0 [largeValue], .delete 0, .restore ⟨0, [.int 8], false⟩] :=
  (counters_true_iff (by decide) (by decide) _ (by decide +kernel)).mpr
    ⟨id, id, id, fun hbad => absurd hbad.1 (by decide +kernel), trivial⟩

/-- A refused restoration counts a row that is not there, and the next insertion writes the
count to the metadata page. -/
theorem refused_restore_counts_row :
    ¬ Along step (fun s op => TrueCounters s (step s op)) (initial 64)
        [.restore ⟨0, [largeValue], false⟩, .insert [.int 7]] ∧
      (finalState step (initial 64)
        [.restore ⟨0, [largeValue], false⟩, .insert [.int 7]]).pageManager.pages[metadataPageId]? =
          some (metadataPage 64 2 1 2) := by
  refine ⟨fun hrun => ?_, by decide +kernel⟩
  have hcounters := hrun.1.refused rowTooLarge (by decide +kernel)
  exact absurd hcounters.1 (by decide +kernel)

end RowStore

end CourseDb

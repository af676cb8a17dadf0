import CourseDb.Storage.RowStore

/-! # The row store without its bytes

A heap is a row store whose data pages are lists of rows. It keeps the layout
decisions of the row store, so its results and the order of a scan are those of
the stored pages, but no page is encoded.
-/

namespace CourseDb

open Codec
open RowStore (packRows pageHeaderSize rowNotFound)

structure Heap where
  pageSize : ℕ
  nextRowId : ℕ
  pages : List (List Row)
deriving DecidableEq

namespace Heap

abbrev Action (α : Type) := Fallible Status Heap α

def empty (pageSize : ℕ) : Heap := { pageSize, nextRowId := 0, pages := [] }

/-- The bytes a row takes in a data page. -/
def entrySize (row : Row) : ℕ := (RowStore.serializeRowEntry row).length

def usedBytes (rows : List Row) : ℕ := (rows.map entrySize).sum

/-- The rows of the file, in page order. -/
def rows (h : Heap) : List Row := h.pages.flatten

def tupleTooLong : Status := ⟨.kInvalidArgument, "Tuple value count is unreasonably large"⟩

/-- A page can be stored but not read back if a tuple has too many values. -/
def readRows (rows : List Row) : Except Status (List Row) :=
  if rows.all fun row => row.tuple.length ≤ maxTupleValues then .ok rows else .error tupleTooLong

theorem readRows_ok {rows out : List Row} (h : readRows rows = .ok out) : out = rows := by
  unfold readRows at h
  split_ifs at h
  exact (Except.ok.inj h).symm

theorem readRows_cases (rows : List Row) :
    (∃ e, readRows rows = .error e) ∨ readRows rows = .ok rows := by
  unfold readRows
  split_ifs
  · exact .inr rfl
  · exact .inl ⟨_, rfl⟩

def loadAllRows : Action (List Row) := fun h => (readRows h.rows, h)

/-- Replace the content of the pages by `rows`, packed anew. -/
def rewriteAllRows (rows : List Row) : Action Unit := fun h =>
  match packRows h.pageSize rows [] [] 0 with
  | .error e => (.error e, h)
  | .ok batches =>
    (.ok (), { h with pages := batches ++ List.replicate (h.pages.length - batches.length) [] })

/-- The ordinal of the first page with room for an entry. -/
def findPage (h : Heap) (size : ℕ) : Option ℕ :=
  h.pages.findIdx? fun rows => pageHeaderSize + usedBytes rows + size ≤ h.pageSize

/-- Append a row to the page with ordinal `ordinal`. -/
def addRow (h : Heap) (ordinal : ℕ) (row : Row) : Heap :=
  { h with
    pages := h.pages.modify ordinal (· ++ [row])
    nextRowId := (h.nextRowId + 1) % 2 ^ 64 }

/-- The row the next insertion of `tuple` stores. -/
def newRow (h : Heap) (tuple : Tuple) : Row := { rid := h.nextRowId, tuple, deleted := false }

def addPage (h : Heap) : Heap := { h with pages := h.pages ++ [[]] }

def insert (tuple : Tuple) : Action ℕ := fun h =>
  if pageHeaderSize + entrySize (h.newRow tuple) > h.pageSize then
    (.error RowStore.entryTooLarge, h)
  else
    match h.findPage (entrySize (h.newRow tuple)) with
    | none => (.ok h.nextRowId, h.addPage.addRow h.pages.length (h.newRow tuple))
    | some ordinal =>
      match readRows (h.pages[ordinal]?.getD []) with
      | .error e => (.error e, h)
      | .ok _ => (.ok h.nextRowId, h.addRow ordinal (h.newRow tuple))

def getIncludingDeleted (rid : ℕ) : Action Row := do
  let rows ← loadAllRows
  match findRow rid rows with
  | none => Fallible.fail rowNotFound
  | some row => return row

def get (rid : ℕ) : Action Row := do
  let row ← getIncludingDeleted rid
  if row.deleted then Fallible.fail RowStore.rowIsDeleted else return row

def changeRow (rows : List Row) (rid : ℕ) (f : Row → Row) : List Row :=
  rows.modify (rows.findIdx fun row => row.rid = rid) f

@[simp] theorem changeRow_nil (rid : ℕ) (f : Row → Row) : changeRow [] rid f = [] := rfl

theorem changeRow_cons (row : Row) (rows : List Row) (rid : ℕ) (f : Row → Row) :
    changeRow (row :: rows) rid f =
      if row.rid = rid then f row :: rows else row :: changeRow rows rid f := by
  unfold changeRow
  by_cases h : row.rid = rid <;> simp [List.findIdx_cons, h]

theorem set_findIdx (rows : List Row) (rid : ℕ) (row : Row) :
    rows.set (rows.findIdx fun r => r.rid = rid) row = changeRow rows rid fun _ => row := by
  induction rows with
  | nil => rfl
  | cons r rows ih =>
    rw [changeRow_cons, ← ih]
    by_cases h : r.rid = rid <;> simp [List.findIdx_cons, h]

theorem mem_changeRow {rows : List Row} {rid : ℕ} {f : Row → Row} {row : Row}
    (h : row ∈ changeRow rows rid f) : row ∈ rows ∨ ∃ r ∈ rows, r.rid = rid ∧ row = f r := by
  induction rows with
  | nil => simp at h
  | cons r rows ih =>
    rw [changeRow_cons] at h
    split_ifs at h with hr
    · rcases List.mem_cons.mp h with h | h
      · exact .inr ⟨r, by simp, hr, h⟩
      · exact .inl (by simp [h])
    · rcases List.mem_cons.mp h with h | h
      · exact .inl (by simp [h])
      · rcases ih h with h | ⟨q, hq, heq⟩
        · exact .inl (by simp [h])
        · exact .inr ⟨q, by simp [hq], heq⟩

def update (rid : ℕ) (tuple : Tuple) : Action Unit := do
  let rows ← loadAllRows
  match findRow rid rows with
  | none => Fallible.fail rowNotFound
  | some row =>
    if row.deleted then
      Fallible.fail RowStore.rowIsDeleted
    else
      rewriteAllRows (changeRow rows rid fun row => { row with tuple })

def delete (rid : ℕ) : Action Unit := do
  let rows ← loadAllRows
  match findRow rid rows with
  | none => Fallible.fail rowNotFound
  | some row =>
    if row.deleted then
      return ()
    else
      rewriteAllRows (changeRow rows rid fun row => { row with deleted := true })

def scan : Action (List Row) := do
  let rows ← loadAllRows
  return rows.filter fun row => !row.deleted

def live (rows : List Row) : List Row := rows.filter fun row => !row.deleted

/-- The rows with `row` put back under its own id. -/
def restoreInto (rows : List Row) (row : Row) : List Row :=
  match findRow row.rid rows with
  | none => rows ++ [{ row with deleted := false }]
  | some _ => changeRow rows row.rid fun _ => { row with deleted := false }

/-- The next row id is raised before the rows are written. -/
def raiseNextRowId (h : Heap) (rid : ℕ) : Heap :=
  { h with nextRowId := max h.nextRowId ((rid + 1) % 2 ^ 64) }

def restore (row : Row) : Action Unit := do
  let rows ← loadAllRows
  Fallible.modify fun h => { h with nextRowId := max h.nextRowId ((row.rid + 1) % 2 ^ 64) }
  rewriteAllRows (restoreInto rows row)

section Packing

variable {pageSize : ℕ}

@[simp] theorem usedBytes_nil : usedBytes [] = 0 := rfl

@[simp] theorem usedBytes_cons (row : Row) (rows : List Row) :
    usedBytes (row :: rows) = entrySize row + usedBytes rows := by
  simp [usedBytes]

@[simp] theorem usedBytes_append (xs ys : List Row) :
    usedBytes (xs ++ ys) = usedBytes xs + usedBytes ys := by
  simp [usedBytes]

theorem packRows_cons (row : Row) (rows : List Row) (batches : List (List Row)) (batch : List Row)
    (size : ℕ) :
    packRows pageSize (row :: rows) batches batch size =
      if pageHeaderSize + entrySize row > pageSize then
        .error RowStore.rowTooLarge
      else if !batch.isEmpty ∧ pageHeaderSize + size + entrySize row > pageSize then
        packRows pageSize rows (batches ++ [batch]) [row] (entrySize row)
      else
        packRows pageSize rows batches (batch ++ [row]) (size + entrySize row) := rfl

/-- The batches hold the rows in their order, and each of them fits a page. -/
theorem packRows_ok (rows : List Row) {batches : List (List Row)} {batch : List Row} {size : ℕ}
    {out : List (List Row)} (hsize : size = usedBytes batch)
    (hbatch : batch ≠ [] → pageHeaderSize + usedBytes batch ≤ pageSize)
    (hbatches : ∀ b ∈ batches, pageHeaderSize + usedBytes b ≤ pageSize)
    (h : packRows pageSize rows batches batch size = .ok out) :
    out.flatten = batches.flatten ++ batch ++ rows ∧
      ∀ b ∈ out, pageHeaderSize + usedBytes b ≤ pageSize := by
  induction rows generalizing batches batch size with
  | nil =>
    simp only [packRows, Except.ok.injEq] at h
    subst h
    cases batch with
    | nil => simpa using hbatches
    | cons row batch =>
      refine ⟨by simp, fun b hb => ?_⟩
      rcases List.mem_append.mp hb with hb | hb
      · exact hbatches b hb
      · rw [List.mem_singleton.mp hb]
        exact hbatch (by simp)
  | cons row rows ih =>
    rw [packRows_cons] at h
    split_ifs at h with hlarge hclose
    · have hnew : pageHeaderSize + usedBytes [row] ≤ pageSize := by
        simpa using hlarge
      have hne : batch ≠ [] := by simpa using hclose.1
      have hall : ∀ b ∈ batches ++ [batch], pageHeaderSize + usedBytes b ≤ pageSize := by
        intro b hb
        rcases List.mem_append.mp hb with hb | hb
        · exact hbatches b hb
        · rw [List.mem_singleton.mp hb]
          exact hbatch hne
      obtain ⟨hflat, hfits⟩ := ih (by simp) (fun _ => hnew) hall h
      exact ⟨by simpa using hflat, hfits⟩
    · have hnew : pageHeaderSize + usedBytes (batch ++ [row]) ≤ pageSize := by
        rw [usedBytes_append, usedBytes_cons, usedBytes_nil, ← hsize]
        cases batch with
        | nil =>
          rw [hsize]
          simpa using hlarge
        | cons r batch =>
          have := not_and.mp hclose (by simp)
          omega
      obtain ⟨hflat, hfits⟩ := ih (by simp [hsize]) (fun _ => hnew) hbatches h
      exact ⟨by simpa using hflat, hfits⟩

/-- Packing fails exactly on a row that fits no page. -/
theorem packRows_eq (pageSize : ℕ) (rows : List Row) (batches : List (List Row)) (batch : List Row)
    (size : ℕ) :
    (∀ row ∈ rows, pageHeaderSize + entrySize row ≤ pageSize) ∧
        (∃ out, packRows pageSize rows batches batch size = .ok out) ∨
      (∃ row ∈ rows, pageSize < pageHeaderSize + entrySize row) ∧
        packRows pageSize rows batches batch size = .error RowStore.rowTooLarge := by
  induction rows generalizing batches batch size with
  | nil => exact .inl ⟨by simp, _, rfl⟩
  | cons row rows ih =>
    by_cases hlarge : pageHeaderSize + entrySize row > pageSize
    · refine .inr ⟨⟨row, by simp, hlarge⟩, ?_⟩
      rw [packRows_cons, if_pos hlarge]
    · rw [packRows_cons, if_neg hlarge]
      split_ifs with hclose
      all_goals
        rcases ih _ _ _ with ⟨hall, hout⟩ | ⟨⟨r, hr, hbig⟩, herr⟩
        · exact .inl ⟨fun r hr => (List.mem_cons.mp hr).elim (fun h => h ▸ by omega) (hall r), hout⟩
        · exact .inr ⟨⟨r, by simp [hr], hbig⟩, herr⟩

end Packing

end Heap

end CourseDb

import CourseDb.Storage.DataPage

/-! # The row store simulates the heap

The state of an open row store is the encoding of a heap. Every operation of
the row store returns what the heap operation returns and leaves the encoding
of the heap it leaves, unless the device refuses to allocate a page.
-/

namespace CourseDb

open Fallible (read_bind bind_ok bind_error bind_apply ofExcept_bind modify_apply
  zoom_of_eq pure_apply)
open Codec

variable {row : Row} {h : Heap} {pageSize : ℕ}

namespace Heap

/-- Every page of the heap can be written and read as a data page. -/
structure Valid (h : Heap) : Prop where
  minSize : 36 ≤ h.pageSize
  maxSize : h.pageSize < 2 ^ 32
  next_lt : h.nextRowId < 2 ^ 64
  fits : ∀ rows ∈ h.pages, RowStore.PageFits h.pageSize rows

theorem Valid.addPage (hv : h.Valid) : h.addPage.Valid := by
  refine ⟨hv.minSize, hv.maxSize, hv.next_lt, fun rows hrows => ?_⟩
  rcases List.mem_append.mp hrows with hrows | hrows
  · exact hv.fits rows hrows
  · rw [List.mem_singleton.mp hrows]
    exact ⟨hv.minSize.trans' (by decide), by simp⟩

theorem Valid.pageSize_pos (hv : h.Valid) : 0 < h.pageSize := by
  have := hv.minSize
  omega

theorem Valid.entry_le (hv : h.Valid) (hrow : row ∈ h.rows) :
    RowStore.pageHeaderSize + entrySize row ≤ h.pageSize := by
  obtain ⟨page, hpage, hmem⟩ := List.mem_flatten.mp hrow
  have hsize := (hv.fits page hpage).size_le
  have hle := RowStore.entrySize_le_usedBytes hmem
  omega

theorem Valid.raiseNextRowId (hv : h.Valid) (rid : ℕ) : (h.raiseNextRowId rid).Valid := by
  have hnext := hv.next_lt
  have hmod := Nat.mod_lt (rid + 1) (Nat.two_pow_pos 64)
  exact ⟨hv.minSize, hv.maxSize, max_lt hnext hmod, hv.fits⟩

theorem Valid.rid_lt (hv : h.Valid) (hrow : row ∈ h.rows) : row.rid < 2 ^ 64 := by
  obtain ⟨page, hpage, hmem⟩ := List.mem_flatten.mp hrow
  exact (hv.fits page hpage).rid_lt row hmem

/-- The file of the heap, its metadata page included, is one the device can hold. -/
def WithinDevice (h : Heap) : Prop :=
  pageFileHeaderSize + (h.pages.length + 1) * h.pageSize ≤ maxFileOffset

/-- A number of pages the device can hold is a page number. -/
theorem lt_of_within_device {n : ℕ} (hpos : 0 < pageSize)
    (hcap : pageFileHeaderSize + n * pageSize ≤ maxFileOffset) : n < 2 ^ 64 := by
  have hmul := Nat.le_mul_of_pos_right n hpos
  simp only [maxFileOffset] at hcap
  omega

/-- The rows that the device can hold are fewer than a 64-bit counter counts. -/
theorem Valid.rows_length_lt (hv : h.Valid) (hd : h.WithinDevice) : h.rows.length + 1 < 2 ^ 64 := by
  have hpage : ∀ rows ∈ h.pages, rows.length ≤ h.pageSize := by
    intro rows hrows
    have hsize := (hv.fits rows hrows).size_le
    have hle := RowStore.rows_length_le_usedBytes rows
    omega
  have hrows : h.rows.length ≤ h.pages.length * h.pageSize := by
    unfold Heap.rows
    rw [List.length_flatten, ← smul_eq_mul, ← List.length_map (f := List.length)]
    refine List.sum_le_card_nsmul _ _ fun n hn => ?_
    obtain ⟨rows, hmem, rfl⟩ := List.mem_map.mp hn
    exact hpage rows hmem
  unfold WithinDevice at hd
  rw [Nat.succ_mul] at hd
  simp only [maxFileOffset] at hd
  omega

/-- Pages are added only as far as the device holds them. -/
structure Grown (h h' : Heap) : Prop where
  pageSize_eq : h'.pageSize = h.pageSize
  pages : h'.pages.length = h.pages.length ∨ h'.WithinDevice

theorem Grown.count_lt {h' : Heap} (hg : Grown h h') (hpos : 0 < h.pageSize)
    (hcount : h.pages.length < 2 ^ 64) : h'.pages.length < 2 ^ 64 := by
  rcases hg.pages with hlen | hcap
  · rw [hlen]
    exact hcount
  · have := lt_of_within_device (hg.pageSize_eq ▸ hpos) hcap
    omega

theorem Grown.withinDevice {h' : Heap} (hg : Grown h h') (hd : h.WithinDevice) :
    h'.WithinDevice := by
  rcases hg.pages with hlen | hcap
  · unfold WithinDevice at hd ⊢
    rw [hlen, hg.pageSize_eq]
    exact hd
  · exact hcap

end Heap

namespace RowStore

open Heap

variable {α : Type} {page : ByteString} {rows : List Row} {batches : List (List Row)}
  {f : List ByteString} {r : Except Status α × RowStore} {q : Except Status α × Heap} {a b : ℕ}

/-- An open store with the given pages and counters. -/
def opened (pageSize : ℕ) (pages : List ByteString) (next count active : ℕ) : RowStore :=
  { pageSize
    pageManager := { pageSize, file := some ⟨pageSize, pages⟩, isOpen := true }
    isOpen := true
    nextRowId := next
    dataPageCount := count
    activeRowCount := active }

def metadataPage (pageSize next count active : ℕ) : ByteString :=
  fillPage pageSize (serializeMetadata
    { version := rowStoreVersion, nextRowId := next, dataPageCount := count,
      activeRowCount := active })

/-- The encoding of a heap. The active row count is never read back for a
decision, so the stored and the current count are left open. -/
def ofHeap (h : Heap) (stored active : ℕ) : RowStore :=
  opened h.pageSize
    (metadataPage h.pageSize h.nextRowId h.pages.length stored ::
      h.pages.map (dataPage h.pageSize))
    h.nextRowId h.pages.length active

/-- The encoding of a heap behind any metadata page. The counters in memory may
be ahead of those on the page. -/
def encoded (h : Heap) (page : ByteString) (active : ℕ) : RowStore :=
  opened h.pageSize (page :: h.pages.map (dataPage h.pageSize)) h.nextRowId h.pages.length active

/-- The metadata page that records the counters of a heap. -/
def metadataOf (h : Heap) (active : ℕ) : ByteString :=
  metadataPage h.pageSize h.nextRowId h.pages.length active

structure Rep (s : RowStore) (h : Heap) : Prop where
  valid : h.Valid
  count_lt : h.pages.length < 2 ^ 64
  encoded : ∃ stored active, s = ofHeap h stored active

/-- The call was refused a page by a device that has no room for one. -/
def OutOfPages {α : Type} (r : Except Status α × RowStore) : Prop :=
  ∃ s, r = (.error PageManager.allocationFailed, s) ∧ s.pageManager.Full

/-- The store's outcome is the heap's outcome, or a refused allocation. -/
def Simulates {α : Type} (r : Except Status α × RowStore) (q : Except Status α × Heap) : Prop :=
  OutOfPages r ∨ (r.1 = q.1 ∧ Rep r.2 q.2)

/-- A call on the encoding of `h` that returns what the heap's call returns, where both
leave everything but the active row count as it is. -/
def Kept {α : Type} (h : Heap) (page : ByteString) (a : ℕ) (r : Except Status α × RowStore)
    (q : Except Status α × Heap) : Prop :=
  ∃ out, r = (out, encoded h page a) ∧ q = (out, h)

theorem Kept.of_result (out : Except Status α) : Kept h page a (out, encoded h page a) (out, h) :=
  ⟨out, rfl, rfl⟩

/-- A call on the encoding of `h` that returns what the heap's call returns and writes the
counters to the metadata page, the active row count `b` among them. -/
def Written {α : Type} (h : Heap) (b : ℕ) (r : Except Status α × RowStore)
    (q : Except Status α × Heap) : Prop :=
  ∃ v h', r = (.ok v, encoded h' (metadataOf h' b) b) ∧ q = (.ok v, h') ∧ h'.Valid ∧ Grown h h'

/-- What a call on the encoding of a heap does, next to the heap's call. -/
def Outcome {α : Type} (h : Heap) (page : ByteString) (a b : ℕ) (r : Except Status α × RowStore)
    (q : Except Status α × Heap) : Prop :=
  OutOfPages r ∨ Kept h page a r q ∨ Written h b r q

theorem Outcome.kept (b : ℕ) (out : Except Status α) :
    Outcome h page a b (out, encoded h page a) (out, h) :=
  .inr (.inl (Kept.of_result out))

theorem Outcome.result {v : α} (hout : Outcome h page a b r q) (hok : r.1 = .ok v) :
    q.1 = .ok v := by
  rcases hout with ⟨s, rfl, -⟩ | ⟨out, rfl, rfl⟩ | ⟨v', h', rfl, rfl, -⟩
  · cases hok
  · exact hok
  · exact hok

/-- A call that follows the heap's call keeps the encoding of the heap. -/
theorem Outcome.simulates {stored : ℕ} (hout : Outcome h (metadataOf h stored) a b r q)
    (hv : h.Valid) (hcount : h.pages.length < 2 ^ 64) : Simulates r q := by
  rcases hout with hfail | ⟨out, rfl, rfl⟩ | ⟨v, h', rfl, rfl, hv', hg⟩
  · exact .inl hfail
  · exact .inr ⟨rfl, hv, hcount, stored, a, rfl⟩
  · exact .inr ⟨rfl, hv', hg.count_lt hv.pageSize_pos hcount, b, b, rfl⟩

theorem metadataBytes_length (m : Metadata) : (serializeMetadata m).length = 36 := by
  simp [serializeMetadata, rowStoreMagic]

theorem metadataPage_length (hmin : 36 ≤ pageSize) (next count active : ℕ) :
    (metadataPage pageSize next count active).length = pageSize :=
  fillPage_length (by rw [metadataBytes_length]; exact hmin)

section Opened

variable {pageSize x c a id : ℕ} {p : List ByteString} {data : ByteString}

@[simp] theorem opened_pageSize : (opened pageSize p x c a).pageSize = pageSize := rfl

@[simp] theorem opened_isOpen : (opened pageSize p x c a).isOpen = true := rfl

@[simp] theorem opened_nextRowId : (opened pageSize p x c a).nextRowId = x := rfl

@[simp] theorem opened_dataPageCount : (opened pageSize p x c a).dataPageCount = c := rfl

theorem readPage_opened (h : p[id]? = some data) :
    onPages (PageManager.readPage id) (opened pageSize p x c a) =
      (.ok data, opened pageSize p x c a) :=
  zoom_of_eq (PageManager.readPage_some rfl h)

theorem writePage_opened (hid : id < p.length) (hdata : data.length = pageSize) :
    onPages (PageManager.writePage id data) (opened pageSize p x c a) =
      (.ok (), opened pageSize (p.set id data) x c a) :=
  zoom_of_eq (PageManager.writePage_ok rfl hid hdata)

variable (pageSize) in
theorem allocatePage_opened :
    OutOfPages (onPages PageManager.allocatePage (opened pageSize p x c a)) ∨
      (pageFileHeaderSize + (p.length + 1) * pageSize ≤ maxFileOffset ∧
        onPages PageManager.allocatePage (opened pageSize p x c a) =
          (.ok p.length,
            opened pageSize (p ++ [List.replicate pageSize 0]) x c a)) := by
  rcases PageManager.allocatePage_cases
    (show (opened pageSize p x c a).pageManager.isOpen = true from rfl) with ⟨h, hfull⟩ | ⟨hcap, h⟩
  · exact .inl ⟨_, zoom_of_eq h, hfull⟩
  · exact .inr ⟨hcap, zoom_of_eq h⟩

theorem writePageRows_opened (hid : id < p.length)
    (hfit : pageHeaderSize + usedBytes rows ≤ pageSize) :
    writePageRows id rows (opened pageSize p x c a) =
      (.ok (), opened pageSize (p.set id (dataPage pageSize rows)) x c a) := by
  have henc : encodePage (opened pageSize p x c a).pageSize rows =
      .ok (dataPage pageSize rows) := encodePage_ok hfit
  unfold writePageRows
  rw [read_bind, henc]
  exact writePage_opened hid (dataPage_length hfit)

theorem writeMetadataPage_opened (hmin : 36 ≤ pageSize) {old : ByteString} :
    writeMetadataPage (opened pageSize (old :: p) x c a) =
      (.ok (), opened pageSize (metadataPage pageSize x c a :: p)
        x c a) := by
  have hlen : ¬ (opened pageSize (old :: p) x c a).metadataBytes.length >
      (opened pageSize (old :: p) x c a).pageSize := by
    rw [metadataBytes, metadataBytes_length]
    exact Nat.not_lt.mpr hmin
  unfold writeMetadataPage
  rw [read_bind, if_neg (by simp), if_neg hlen]
  exact writePage_opened (by simp [metadataPageId]) (metadataPage_length hmin _ _ _)

theorem loadPageRows_opened {i : ℕ} (hpage : p[i]? = some (dataPage pageSize rows))
    (hfit : PageFits pageSize rows) (hmax : pageSize < 2 ^ 32) :
    loadPageRows i (opened pageSize p x c a) = (readRows rows, opened pageSize p x c a) := by
  unfold loadPageRows
  rw [bind_ok (readPage_opened hpage), decodePage_dataPage hfit hmax]
  rfl

theorem growDataPages_opened (n : ℕ) :
    OutOfPages (growDataPages n (opened pageSize p x c a)) ∨
      ((0 < n → pageFileHeaderSize + (p.length + n) * pageSize ≤ maxFileOffset) ∧
        growDataPages n (opened pageSize p x c a) =
          (.ok (), opened pageSize (p ++ List.replicate n (List.replicate pageSize 0))
            x (c + n) a)) := by
  induction n generalizing p c with
  | zero => exact .inr ⟨by omega, by simp [growDataPages]⟩
  | succ n ih =>
    unfold growDataPages
    rcases allocatePage_opened pageSize (p := p) (x := x) (c := c) (a := a)
      with ⟨s', h, hfull⟩ | ⟨hcap, h⟩
    · exact .inl ⟨s', bind_error h, hfull⟩
    · rw [bind_ok h]
      change OutOfPages (growDataPages n (opened pageSize _ x (c + 1) a)) ∨
        _ ∧ growDataPages n (opened pageSize _ x (c + 1) a) = _
      rcases ih (p := p ++ [List.replicate pageSize 0]) (c := c + 1)
        with hfail | ⟨hlen, hok⟩
      · exact .inl hfail
      · refine .inr ⟨fun _ => ?_, ?_⟩
        · rcases Nat.eq_zero_or_pos n with rfl | hn
          · exact hcap
          · rw [List.length_append, List.length_singleton] at hlen
            rw [Nat.add_comm n 1, ← Nat.add_assoc]
            exact hlen hn
        · rw [hok, List.append_assoc, List.singleton_append, ← List.replicate_succ]
          simp only [Nat.add_assoc, Nat.add_comm 1 n]

theorem writeBatchesFrom_opened
    (hfit : ∀ i : ℕ, pageHeaderSize + usedBytes (batches[i]?.getD []) ≤ pageSize) (n start : ℕ)
    {r : List ByteString} (hfront : f.length = start + 1) (hrest : r.length = n) :
    writeBatchesFrom batches start n (opened pageSize (f ++ r) x c a) =
      (.ok (), opened pageSize
        (f ++ (List.range' start n).map fun i => dataPage pageSize (batches[i]?.getD []))
        x c a) := by
  induction n generalizing start f r with
  | zero =>
    obtain rfl : r = [] := List.length_eq_zero_iff.mp hrest
    simp [writeBatchesFrom]
  | succ n ih =>
    cases r with
    | nil => simp at hrest
    | cons page r =>
      have hid : dataPageIdFromOrdinal start < (f ++ page :: r).length := by
        simp only [dataPageIdFromOrdinal, List.length_append, List.length_cons, hfront]
        omega
      unfold writeBatchesFrom
      rw [bind_ok (writePageRows_opened hid (hfit start))]
      have hset : (f ++ page :: r).set (dataPageIdFromOrdinal start)
          (dataPage pageSize (batches[start]?.getD [])) =
          (f ++ [dataPage pageSize (batches[start]?.getD [])]) ++ r := by
        simp [dataPageIdFromOrdinal, ← hfront]
      rw [hset, ih (start + 1) (by simp [hfront]) (by simpa using hrest)]
      simp [List.range'_succ]

end Opened

section Operations

variable {s : RowStore} {h : Heap} {e : Status} {g : List Row → Heap.Action α} {rid ordinal : ℕ}
  {size : ℕ}

theorem loadPagesFrom_opened {x c : ℕ} (hmax : pageSize < 2 ^ 32) (pages : List (List Row))
    (start : ℕ) (hfront : f.length = start + 1) (hfits : ∀ rows ∈ pages, PageFits pageSize rows) :
    loadPagesFrom start pages.length
        (opened pageSize (f ++ pages.map (dataPage pageSize)) x c a) =
      (readRows pages.flatten,
        opened pageSize (f ++ pages.map (dataPage pageSize)) x c a) := by
  induction pages generalizing start f with
  | nil => simp [loadPagesFrom, readRows]
  | cons rows pages ih =>
    have hpage : (f ++ (rows :: pages).map (dataPage pageSize))[dataPageIdFromOrdinal start]? =
        some (dataPage pageSize rows) := by
      simp [dataPageIdFromOrdinal, ← hfront]
    have hload := loadPageRows_opened (x := x) (c := c) (a := a) hpage
      (hfits rows (by simp)) hmax
    have hrest := ih (start + 1) (f := f ++ [dataPage pageSize rows])
      (by simp [hfront]) (fun r hr => hfits r (by simp [hr]))
    simp only [List.append_assoc, List.singleton_append, ← List.map_cons] at hrest
    rw [List.length_cons, loadPagesFrom, bind_apply, hload]
    unfold readRows at hrest ⊢
    by_cases hrows : rows.all fun row => row.tuple.length ≤ maxTupleValues
    · simp only [hrows, if_true]
      rw [bind_apply, hrest]
      by_cases hall : pages.flatten.all fun row => row.tuple.length ≤ maxTupleValues
      · rw [if_pos hall, if_pos (by rw [List.flatten_cons, List.all_append, hrows, hall]; rfl)]
        simp
      · rw [if_neg hall, if_neg (by rw [List.flatten_cons, List.all_append, hrows]; simpa using hall)]
    · rw [if_neg hrows,
        if_neg (by rw [List.flatten_cons, List.all_append]; simp_all)]

theorem findRowIndexById_eq (rows : List Row) (rid : ℕ) :
    match findRow rid rows with
    | none => findRowIndexById rows rid = .error rowNotFound
    | some row => ∃ index, findRowIndexById rows rid = .ok index ∧
        index = rows.findIdx (fun row => row.rid = rid) ∧ rows[index]? = some row := by
  induction rows with
  | nil => rfl
  | cons r rows ih =>
    by_cases hr : r.rid = rid
    · simp [findRowIndexById, List.findIdx?_cons, List.findIdx_cons, hr]
    · unfold findRowIndexById findRow at ih ⊢
      simp only [List.find?_cons, hr, decide_false, List.findIdx?_cons, List.findIdx_cons,
        Bool.false_eq_true, if_false, cond_false]
      cases hfind : rows.find? (fun row => row.rid = rid) with
      | none =>
        rw [hfind] at ih
        cases hidx : rows.findIdx? (fun row => row.rid = rid) with
        | none => simp
        | some i => simp [hidx] at ih
      | some row =>
        rw [hfind] at ih
        obtain ⟨index, hok, hindex, hget⟩ := ih
        cases hidx : rows.findIdx? (fun row => row.rid = rid) with
        | none => simp [hidx] at hok
        | some i =>
          obtain rfl : i = index := by simpa [hidx] using hok
          exact ⟨i + 1, by simp, by rw [hindex], by simpa using hget⟩

theorem map_range_getD {β : Type} (l : List α) (d : α) (f : α → β) {n : ℕ} (h : l.length ≤ n) :
    ((List.range' 0 n).map fun i => f (l[i]?.getD d)) =
      (l ++ List.replicate (n - l.length) d).map f := by
  apply List.ext_getElem
  · simp only [List.length_map, List.length_range', List.length_append, List.length_replicate]
    omega
  · intro i h₁ h₂
    simp only [List.getElem_map, List.getElem_range', Nat.zero_add, Nat.one_mul]
    by_cases hi : i < l.length
    · simp [List.getElem_append_left hi, List.getElem?_eq_getElem hi]
    · simp [List.getElem_append_right (Nat.le_of_not_lt hi), hi]

theorem rewriteAllRows_refused (hpack : packRows h.pageSize rows [] [] 0 = .error e)
    (page : ByteString) (active : ℕ) :
    rewriteAllRows rows (encoded h page active) = (.error e, encoded h page active) ∧
      Heap.rewriteAllRows rows h = (.error e, h) := by
  unfold rewriteAllRows Heap.rewriteAllRows
  rw [read_bind, hpack]
  refine ⟨?_, rfl⟩
  change (Fallible.ofExcept (packRows h.pageSize rows [] [] 0) >>= _) _ = _
  rw [hpack]
  rfl

theorem changeRow_rid_lt {f : Row → Row} (hrows : ∀ row ∈ rows, row.rid < 2 ^ 64)
    (hf : ∀ row, row.rid < 2 ^ 64 → (f row).rid < 2 ^ 64) :
    ∀ row ∈ changeRow rows rid f, row.rid < 2 ^ 64 := by
  intro row hrow
  rcases mem_changeRow hrow with hmem | ⟨r, hr, -, rfl⟩
  · exact hrows row hmem
  · exact hf r (hrows r hr)

theorem restoreInto_fst (rows : List Row) (row : Row) :
    (restoreInto rows row).1 = Heap.restoreInto rows row := by
  have hfind := findRowIndexById_eq rows row.rid
  unfold restoreInto Heap.restoreInto
  cases hold : findRow row.rid rows with
  | none =>
    rw [hold] at hfind
    rw [hfind]
  | some old =>
    rw [hold] at hfind
    obtain ⟨index, hok, hindex, -⟩ := hfind
    rw [hok, hindex]
    exact set_findIdx _ _ _

theorem restoreInto_rid_lt (hrows : ∀ r ∈ rows, r.rid < 2 ^ 64) (hrow : row.rid < 2 ^ 64) :
    ∀ r ∈ Heap.restoreInto rows row, r.rid < 2 ^ 64 := by
  unfold Heap.restoreInto
  split
  · intro r hr
    rcases List.mem_append.mp hr with hr | hr
    · exact hrows r hr
    · rw [List.mem_singleton.mp hr]
      exact hrow
  · exact changeRow_rid_lt hrows fun _ _ => hrow

/-- The search for free space finds the ordinal the heap finds. -/
theorem findPageFrom_opened {x c z : ℕ} (hmax : pageSize < 2 ^ 32) (pages : List (List Row))
    (start : ℕ) (hfront : f.length = start + 1)
    (hfits : ∀ rows ∈ pages, pageHeaderSize + usedBytes rows ≤ pageSize) :
    findPageFrom z start pages.length
        (opened pageSize (f ++ pages.map (dataPage pageSize)) x c a) =
      (.ok ((pages.findIdx? fun rows => pageHeaderSize + usedBytes rows + z ≤ pageSize).map
          fun i => dataPageIdFromOrdinal (start + i)),
        opened pageSize (f ++ pages.map (dataPage pageSize)) x c a) := by
  induction pages generalizing start f with
  | nil => simp [findPageFrom]
  | cons rows pages ih =>
    have hpage : (f ++ (rows :: pages).map (dataPage pageSize))[dataPageIdFromOrdinal start]? =
        some (dataPage pageSize rows) := by
      simp [dataPageIdFromOrdinal, ← hfront]
    have hheader := deserializeDataPageHeader_dataPage (hfits rows (by simp)) hmax
    have hrest := ih (start + 1) (f := f ++ [dataPage pageSize rows])
      (by simp [hfront]) (fun r hr => hfits r (by simp [hr]))
    simp only [List.append_assoc, List.singleton_append, ← List.map_cons] at hrest
    rw [List.length_cons, findPageFrom, bind_ok (readPage_opened hpage), hheader,
      ofExcept_bind rfl,
      read_bind]
    split_ifs with hroom
    · change pageHeaderSize + usedBytes rows + z ≤ pageSize at hroom
      simp [List.findIdx?_cons, hroom]
    · change ¬ pageHeaderSize + usedBytes rows + z ≤ pageSize at hroom
      have hshift : ∀ i, start + 1 + i = start + (i + 1) := by
        intro i
        omega
      rw [hrest]
      simp [List.findIdx?_cons, hroom, Function.comp_def, hshift]

theorem findPage_some (hfind : h.findPage size = some ordinal) :
    ∃ rows, h.pages[ordinal]? = some rows ∧
      pageHeaderSize + usedBytes rows + size ≤ h.pageSize := by
  obtain ⟨hlt, hroom, -⟩ := List.findIdx?_eq_some_iff_getElem.mp hfind
  exact ⟨h.pages[ordinal], List.getElem?_eq_getElem hlt, by simpa using hroom⟩

theorem insert_encoded (tuple : Tuple) (page : ByteString) (a : ℕ) :
    insert tuple (encoded h page a) =
      (findPageWithFreeSpace (entrySize (h.newRow tuple)) >>= fun pageId =>
        insertAt pageId (h.newRow tuple)) (encoded h page a) := by
  unfold insert
  rw [read_bind, if_neg (by simp [encoded])]
  rfl

theorem findPageWithFreeSpace_large (hlarge : pageHeaderSize + size > (encoded h page a).pageSize) :
    findPageWithFreeSpace size (encoded h page a) = (.error entryTooLarge, encoded h page a) := by
  unfold findPageWithFreeSpace
  rw [read_bind, if_neg (by simp [encoded]), if_pos hlarge]
  rfl

section Encoded

variable (hv : h.Valid) (page : ByteString) (a : ℕ)
  {R : Except Status α × RowStore → Except Status α × Heap → Prop}

include hv

theorem loadAllRows_encoded :
    loadAllRows (encoded h page a) = (readRows h.rows, encoded h page a) :=
  loadPagesFrom_opened hv.maxSize h.pages 0 (f := [page]) rfl hv.fits

/-- Rows that can be packed are written, with the counters, if the device has the pages. -/
theorem rewriteAllRows_written (hpack : packRows h.pageSize rows [] [] 0 = .ok batches)
    (hrid : ∀ row ∈ rows, row.rid < 2 ^ 64) :
    OutOfPages (rewriteAllRows rows (encoded h page a)) ∨
      Written h a (rewriteAllRows rows (encoded h page a))
        (Heap.rewriteAllRows rows h) := by
  have hmin := hv.minSize
  unfold rewriteAllRows Heap.rewriteAllRows
  rw [read_bind, hpack]
  change OutOfPages ((Fallible.ofExcept (packRows h.pageSize rows [] [] 0) >>= _) _) ∨
    Written h a ((Fallible.ofExcept (packRows h.pageSize rows [] [] 0) >>= _) _) _
  rw [ofExcept_bind hpack]
  obtain ⟨hflat, hfits⟩ := packRows_ok rows (usedBytes_nil).symm (by simp) (by simp) hpack
  have hbatch : ∀ i : ℕ, pageHeaderSize + usedBytes (batches[i]?.getD []) ≤ h.pageSize := by
    intro i
    cases hi : batches[i]? with
    | none => exact hmin.trans' (by decide)
    | some b => exact hfits b (List.mem_of_getElem? hi)
  change OutOfPages ((growDataPages (batches.length - h.pages.length) >>= _) (opened _ _ _ _ _)) ∨
    Written h a ((growDataPages (batches.length - h.pages.length) >>= _)
      (opened _ _ _ _ _)) _
  rcases growDataPages_opened (x := h.nextRowId) (c := h.pages.length) (a := a)
    (p := page :: h.pages.map (dataPage h.pageSize))
    (batches.length - h.pages.length) with ⟨s', hfail, hfull⟩ | ⟨hcap, hgrow⟩
  · exact .inl ⟨s', bind_error hfail, hfull⟩
  · have hsum : h.pages.length + (batches.length - h.pages.length) =
        batches.length + (h.pages.length - batches.length) := by omega
    have hwrite := writeBatchesFrom_opened (x := h.nextRowId)
      (c := h.pages.length + (batches.length - h.pages.length)) (a := a) hbatch
      (h.pages.length + (batches.length - h.pages.length)) 0
      (f := [page])
      (r := h.pages.map (dataPage h.pageSize) ++
        List.replicate (batches.length - h.pages.length) (List.replicate h.pageSize 0))
      rfl (by simp)
    rw [map_range_getD _ _ _ (by omega)] at hwrite
    rw [bind_ok hgrow, read_bind]
    rw [← List.append_assoc] at hwrite
    erw [bind_ok hwrite]
    rw [if_neg (by erw [metadataBytes_length]; exact Nat.not_lt.mpr hmin)]
    erw [writePage_opened (by simp [metadataPageId]) (metadataPage_length hmin _ _ _)]
    refine .inr ⟨(), _, ?_, rfl, ⟨hmin, hv.maxSize, hv.next_lt, ?_⟩, rfl, ?_⟩
    · simp only [encoded, metadataOf, List.length_append, List.length_replicate, hsum,
        Nat.add_sub_cancel_left]
      rfl
    · intro b hb
      rcases List.mem_append.mp hb with hb | hb
      · refine ⟨hfits b hb, fun row hrow => hrid row ?_⟩
        rw [← List.nil_append rows, ← List.nil_append ([] ++ rows)]
        exact hflat ▸ List.mem_flatten.mpr ⟨b, hb, hrow⟩
      · rw [(List.mem_replicate.mp hb).2]
        exact ⟨hmin.trans' (by decide), by simp⟩
    · have hlen : (batches ++ List.replicate (h.pages.length - batches.length) []).length =
          h.pages.length + (batches.length - h.pages.length) := by
        rw [List.length_append, List.length_replicate, ← hsum]
      rcases Nat.eq_zero_or_pos (batches.length - h.pages.length) with hzero | hpos
      · exact .inl (by rw [hlen, hzero]; rfl)
      · refine .inr ?_
        unfold WithinDevice
        rw [hlen, Nat.add_right_comm]
        simpa using hcap hpos

theorem rewriteAllRows_outcome (hrid : ∀ row ∈ rows, row.rid < 2 ^ 64) :
    Outcome h page a a (rewriteAllRows rows (encoded h page a)) (Heap.rewriteAllRows rows h) := by
  cases hpack : packRows h.pageSize rows [] [] 0 with
  | error e => exact .inr (.inl ⟨.error e, rewriteAllRows_refused hpack page a⟩)
  | ok batches => exact (rewriteAllRows_written hv page a hpack hrid).imp_right .inr

theorem loadAllRows_ok (hread : readRows h.rows = .ok h.rows) :
    loadAllRows (encoded h page a) = (.ok h.rows, encoded h page a) ∧
      Heap.loadAllRows h = (.ok h.rows, h) := by
  rw [loadAllRows_encoded hv, Heap.loadAllRows, hread]
  exact ⟨rfl, rfl⟩

theorem loadAllRows_bind_unread (hread : readRows h.rows = .error e) (f : List Row → Action α)
    (g : List Row → Heap.Action α) :
    Kept h page a ((loadAllRows >>= f) (encoded h page a)) ((Heap.loadAllRows >>= g) h) := by
  rw [bind_apply, bind_apply, loadAllRows_encoded hv, Heap.loadAllRows, hread]
  exact Kept.of_result (.error e)

theorem loadAllRows_rel {f : List Row → Action α}
    (herr : ∀ e, R (.error e, encoded h page a) (.error e, h))
    (hfg : R (f h.rows (encoded h page a)) (g h.rows h)) :
    R ((loadAllRows >>= f) (encoded h page a)) ((Heap.loadAllRows >>= g) h) := by
  rw [bind_apply, bind_apply, loadAllRows_encoded hv, Heap.loadAllRows]
  rcases readRows_cases h.rows with ⟨e, hread⟩ | hread <;> rw [hread]
  · exact herr e
  · exact hfg

theorem findRow_rel {f : List Row → ℕ → Action α} {g : List Row → Row → Heap.Action α}
    (herr : ∀ e, R (.error e, encoded h page a) (.error e, h))
    (hfound : ∀ row index, findRow rid h.rows = some row →
      index = h.rows.findIdx (fun row => row.rid = rid) → h.rows[index]? = some row →
      R (f h.rows index (encoded h page a)) (g h.rows row h)) :
    R ((loadAllRows >>= fun rows => Fallible.ofExcept (findRowIndexById rows rid) >>= f rows)
        (encoded h page a))
      ((Heap.loadAllRows >>= fun rows =>
        match findRow rid rows with
        | none => Fallible.fail rowNotFound
        | some row => g rows row) h) := by
  apply loadAllRows_rel hv page a herr
  have hfind := findRowIndexById_eq h.rows rid
  cases hrow : findRow rid h.rows with
  | none =>
    rw [hrow] at hfind
    rw [hfind]
    exact herr rowNotFound
  | some row =>
    rw [hrow] at hfind
    obtain ⟨index, hok, hindex, hget⟩ := hfind
    rw [ofExcept_bind hok]
    exact hfound row index hrow hindex hget

theorem getIncludingDeleted_kept (rid : ℕ) :
    Kept h page a (getIncludingDeleted rid (encoded h page a))
      (Heap.getIncludingDeleted rid h) := by
  apply findRow_rel hv page a fun e => Kept.of_result (.error e)
  intro row index _ _ hget
  rw [hget]
  exact Kept.of_result (.ok row)

theorem get_kept (rid : ℕ) : Kept h page a (get rid (encoded h page a)) (Heap.get rid h) := by
  obtain ⟨out, hstore, hheap⟩ := getIncludingDeleted_kept hv page a rid
  unfold get Heap.get
  rw [bind_apply, bind_apply, hstore, hheap]
  cases out with
  | error e => exact Kept.of_result (.error e)
  | ok row =>
    dsimp only
    split_ifs
    · exact Kept.of_result (.error rowIsDeleted)
    · exact Kept.of_result (.ok row)

theorem scan_kept : Kept h page a (scan (encoded h page a)) (Heap.scan h) :=
  loadAllRows_rel hv page a (fun e => Kept.of_result (.error e))
    (Kept.of_result (.ok (h.rows.filter fun row => !row.deleted)))

theorem update_outcome (rid : ℕ) (tuple : Tuple) :
    Outcome h page a a (update rid tuple (encoded h page a)) (Heap.update rid tuple h) := by
  apply findRow_rel hv page a fun e => Outcome.kept a (.error e)
  intro row index _ hindex hget
  rw [hget, Option.any_some]
  split_ifs
  · exact Outcome.kept a _
  · rw [hindex]
    exact rewriteAllRows_outcome hv page a
      (changeRow_rid_lt (fun r hr => hv.rid_lt hr) fun _ hr => hr)

/-- A row of the same size as before still fits a page. -/
theorem packRows_changeRow (rid : ℕ) {f : Row → Row}
    (hf : ∀ row, entrySize (f row) = entrySize row) :
    ∃ batches, packRows h.pageSize (changeRow h.rows rid f) [] [] 0 = .ok batches := by
  rcases packRows_eq h.pageSize (changeRow h.rows rid f) [] [] 0 with
    ⟨-, hok⟩ | ⟨⟨row, hrow, hlarge⟩, -⟩
  · exact hok
  · exfalso
    rcases mem_changeRow hrow with hmem | ⟨old, hmem, -, rfl⟩
    · exact Nat.not_lt.mpr (hv.entry_le hmem) hlarge
    · rw [hf] at hlarge
      exact Nat.not_lt.mpr (hv.entry_le hmem) hlarge

theorem delete_kept (hdel : ∀ row, findRow rid h.rows = some row → row.deleted = true) :
    Kept h page a (delete rid (encoded h page a)) (Heap.delete rid h) := by
  apply findRow_rel hv page a fun e => Kept.of_result (.error e)
  intro row index hrow _ hget
  rw [hget, Option.any_some, if_pos (hdel row hrow), if_pos (hdel row hrow)]
  exact Kept.of_result (.ok ())

theorem delete_unread (rid : ℕ) (hread : readRows h.rows = .error e) :
    Kept h page a (delete rid (encoded h page a)) (Heap.delete rid h) :=
  loadAllRows_bind_unread hv page a hread _ _

theorem delete_written (hread : readRows h.rows = .ok h.rows) (hrow : findRow rid h.rows = some row)
    (hlive : row.deleted = false) : OutOfPages (delete rid (encoded h page a)) ∨
      Written h ((a + 2 ^ 64 - 1) % 2 ^ 64) (delete rid (encoded h page a))
        (Heap.delete rid h) := by
  obtain ⟨hload, hheap⟩ := loadAllRows_ok hv page a hread
  obtain ⟨batches, hpack⟩ := packRows_changeRow hv rid (f := fun row => { row with deleted := true })
    fun row => by rw [entrySize_eq, entrySize_eq]
  have hfind := findRowIndexById_eq h.rows rid
  rw [hrow] at hfind
  obtain ⟨index, hok, hindex, hget⟩ := hfind
  unfold delete Heap.delete
  rw [bind_ok hload, bind_ok hheap, hok,
    ofExcept_bind rfl, hget, hrow, Option.any_some]
  have hne : ¬ row.deleted = true := by simp [hlive]
  dsimp only
  rw [if_neg hne, if_neg hne, hindex]
  exact rewriteAllRows_written hv page ((a + 2 ^ 64 - 1) % 2 ^ 64) hpack
    (changeRow_rid_lt (fun r hr => hv.rid_lt hr) fun _ hr => hr)

theorem delete_outcome (rid : ℕ) :
    Outcome h page a ((a + 2 ^ 64 - 1) % 2 ^ 64) (delete rid (encoded h page a))
      (Heap.delete rid h) := by
  by_cases hlive : ∃ row, findRow rid h.rows = some row ∧ row.deleted = false
  · obtain ⟨row, hrow, hlive⟩ := hlive
    rcases readRows_cases h.rows with ⟨e, hread⟩ | hread
    · exact .inr (.inl (delete_unread hv page a rid hread))
    · exact (delete_written hv page a hread hrow hlive).imp_right .inr
  · push Not at hlive
    exact .inr (.inl (delete_kept hv page a fun row hrow => by simpa using hlive row hrow))

/-- A restoration raises the next id and the active row count in memory before it packs
the rows. -/
theorem restore_encoded (row : Row) (hread : readRows h.rows = .ok h.rows) :
    restore row (encoded h page a) =
        rewriteAllRows (Heap.restoreInto h.rows row) (encoded (h.raiseNextRowId row.rid) page
          (if (restoreInto h.rows row).2 then (a + 1) % 2 ^ 64 else a)) ∧
      Heap.restore row h =
        Heap.rewriteAllRows (Heap.restoreInto h.rows row) (h.raiseNextRowId row.rid) := by
  obtain ⟨hload, hheap⟩ := loadAllRows_ok hv page a hread
  unfold restore Heap.restore
  rw [bind_ok hload, bind_ok hheap,
    bind_ok (modify_apply _ _)]
  dsimp only
  rw [bind_ok (modify_apply _ _), restoreInto_fst]
  exact ⟨rfl, rfl⟩

theorem restore_unread (row : Row) (hread : readRows h.rows = .error e) :
    Kept h page a (restore row (encoded h page a)) (Heap.restore row h) :=
  loadAllRows_bind_unread hv page a hread _ _

theorem restore_outcome (hrid : row.rid < 2 ^ 64) (hread : readRows h.rows = .ok h.rows)
    (hb : b = if (restoreInto h.rows row).2 then (a + 1) % 2 ^ 64 else a) :
    Outcome (h.raiseNextRowId row.rid) page b b (restore row (encoded h page a))
      (Heap.restore row h) := by
  obtain ⟨hstore, hheap⟩ := restore_encoded hv page a row hread
  rw [hstore, hheap, ← hb]
  exact rewriteAllRows_outcome (hv.raiseNextRowId row.rid) page b
    (restoreInto_rid_lt (fun r hr => hv.rid_lt hr) hrid)

/-- For a row id that has been given out, the next id stays as it is. -/
theorem restore_outcome_of_lt (hrid : row.rid < h.nextRowId) :
    ∃ a' b, Outcome h page a' b (restore row (encoded h page a)) (Heap.restore row h) := by
  have hnext := hv.next_lt
  have hsame : h.raiseNextRowId row.rid = h := by
    rw [raiseNextRowId, Nat.mod_eq_of_lt (by omega), max_eq_left (by omega)]
  rcases readRows_cases h.rows with ⟨e, hread⟩ | hread
  · exact ⟨a, a, .inr (.inl (restore_unread hv page a row hread))⟩
  · have hout := restore_outcome hv page a (hrid.trans hnext) hread rfl
    rw [hsame] at hout
    exact ⟨_, _, hout⟩

/-- The metadata page is rewritten by the insertion, so its old content is left
open: it is out of date if the page has just been allocated. -/
theorem insertAt_encoded (row : Row) (hpage : h.pages[ordinal]? = some rows)
    (hread : readRows rows = .ok rows) (hrid : row.rid = h.nextRowId)
    (hroom : pageHeaderSize + usedBytes rows + entrySize row ≤ h.pageSize) :
    insertAt (dataPageIdFromOrdinal ordinal) row (encoded h page a) =
        (.ok row.rid, encoded (h.addRow ordinal row)
          (metadataOf (h.addRow ordinal row) ((a + 1) % 2 ^ 64)) ((a + 1) % 2 ^ 64)) ∧
      (h.addRow ordinal row).Valid := by
  have hlt : ordinal < h.pages.length := (List.getElem?_eq_some_iff.mp hpage).1
  have hstored : (page :: h.pages.map (dataPage h.pageSize))[dataPageIdFromOrdinal ordinal]? =
      some (dataPage h.pageSize rows) := by
    simp [dataPageIdFromOrdinal, hpage]
  have hload := loadPageRows_opened (x := h.nextRowId) (c := h.pages.length)
    (a := a) hstored (hv.fits rows (List.mem_of_getElem? hpage)) hv.maxSize
  have hfit : pageHeaderSize + usedBytes (rows ++ [row]) ≤ h.pageSize := by
    rw [usedBytes_append, usedBytes_cons, usedBytes_nil]
    omega
  have hmodify : h.pages.modify ordinal (· ++ [row]) = h.pages.set ordinal (rows ++ [row]) := by
    rw [List.modify_eq_set_getElem?, hpage]
    rfl
  refine ⟨?_, hv.minSize, hv.maxSize, Nat.mod_lt _ (by omega), ?_⟩
  · unfold insertAt encoded
    rw [bind_ok (hload.trans (by rw [hread])),
      bind_ok (writePageRows_opened (by simpa [dataPageIdFromOrdinal] using hlt) hfit),
      bind_ok (modify_apply _ _)]
    change (writeMetadataPage >>= _) (opened h.pageSize
      (_ :: (h.pages.map (dataPage h.pageSize)).set ordinal _) ((h.nextRowId + 1) % 2 ^ 64)
      h.pages.length ((a + 1) % 2 ^ 64)) = _
    rw [bind_ok (writeMetadataPage_opened hv.minSize), ← List.map_set]
    simp only [addRow, hmodify, metadataOf, List.length_set, pure_apply]
  · change ∀ rows ∈ h.pages.modify ordinal _, PageFits h.pageSize rows
    rw [hmodify]
    intro rows' hmem
    rcases List.mem_or_eq_of_mem_set hmem with hmem | rfl
    · exact hv.fits _ hmem
    · refine ⟨hfit, fun r hr => ?_⟩
      rcases List.mem_append.mp hr with hr | hr
      · exact (hv.fits rows (List.mem_of_getElem? hpage)).rid_lt r hr
      · rw [List.mem_singleton.mp hr, hrid]
        exact hv.next_lt

theorem appendDataPage_encoded :
    OutOfPages (appendDataPage (encoded h page a)) ∨
      (h.addPage.WithinDevice ∧
        appendDataPage (encoded h page a) =
          (.ok (dataPageIdFromOrdinal h.pages.length), encoded h.addPage page a)) := by
  have hmin := hv.minSize
  unfold appendDataPage
  rcases allocatePage_opened h.pageSize (x := h.nextRowId) (c := h.pages.length) (a := a)
    (p := page :: h.pages.map (dataPage h.pageSize)) with ⟨s', hfail, hfull⟩ | ⟨hcap, halloc⟩
  · exact .inl ⟨s', bind_error hfail, hfull⟩
  · rw [List.length_cons, List.length_map] at hcap halloc
    refine .inr ⟨by simpa [WithinDevice, addPage] using hcap, ?_⟩
    rw [encoded, bind_ok halloc, bind_ok (modify_apply _ _)]
    change (writePageRows (h.pages.length + 1) [] >>= _) (opened h.pageSize _ h.nextRowId
      (h.pages.length + 1) a) = _
    rw [bind_ok (writePageRows_opened (by simp) (hmin.trans' (by decide)))]
    simp [dataPageIdFromOrdinal, addPage, encoded]

/-- A page with room is found, or a new empty page is appended. -/
theorem findPageWithFreeSpace_encoded (hsize : pageHeaderSize + size ≤ h.pageSize) :
    findPageWithFreeSpace size (encoded h page a) =
      match h.findPage size with
      | some ordinal => (.ok (dataPageIdFromOrdinal ordinal), encoded h page a)
      | none => appendDataPage (encoded h page a) := by
  have hsearch := findPageFrom_opened (x := h.nextRowId) (c := h.pages.length)
    (a := a) (z := size) hv.maxSize h.pages 0 (f := [page]) rfl
    (fun rows hrows => (hv.fits rows hrows).size_le)
  simp only [Nat.zero_add, List.singleton_append] at hsearch
  have hlarge : ¬ pageHeaderSize + size > (encoded h page a).pageSize :=
    Nat.not_lt.mpr hsize
  unfold findPageWithFreeSpace
  rw [read_bind, if_neg (by simp [encoded]), if_neg hlarge]
  change (findPageFrom size 0 h.pages.length >>= _) (opened _ _ _ _ _) = _
  rw [bind_ok hsearch, findPage]
  cases h.pages.findIdx? _ <;> rfl

theorem insertAt_unreadable (hpage : h.pages[ordinal]? = some rows)
    (hread : readRows rows = .error e) :
    insertAt (dataPageIdFromOrdinal ordinal) row (encoded h page a) =
      (.error e, encoded h page a) := by
  have hload := loadPageRows_opened (x := h.nextRowId) (c := h.pages.length) (a := a)
    (i := dataPageIdFromOrdinal ordinal) (p := page :: h.pages.map (dataPage h.pageSize))
    (by simp [dataPageIdFromOrdinal, hpage])
    (hv.fits rows (List.mem_of_getElem? hpage)) hv.maxSize
  rw [hread] at hload
  rw [insertAt, encoded, bind_error hload]

theorem insert_outcome (tuple : Tuple) :
    Outcome h page a ((a + 1) % 2 ^ 64) (insert tuple (encoded h page a))
      (Heap.insert tuple h) := by
  rw [insert_encoded]
  unfold Heap.insert
  split_ifs with hlarge
  · rw [bind_error (findPageWithFreeSpace_large hlarge)]
    exact Outcome.kept _ _
  · have hsearch := findPageWithFreeSpace_encoded hv page a (Nat.le_of_not_lt hlarge)
    cases hfind : h.findPage (entrySize (h.newRow tuple)) with
    | some ordinal =>
      obtain ⟨rows, hpage, hroom⟩ := findPage_some hfind
      rw [hfind] at hsearch
      rw [bind_ok hsearch]
      simp only [hpage, Option.getD_some]
      cases hread : readRows rows with
      | error e =>
        rw [insertAt_unreadable hv page a hpage hread]
        exact Outcome.kept _ _
      | ok out =>
        obtain rfl := readRows_ok hread
        obtain ⟨hok, hv'⟩ := insertAt_encoded hv page a (h.newRow tuple) hpage hread rfl hroom
        rw [hok]
        exact .inr (.inr ⟨_, _, rfl, rfl, hv', rfl, .inl (List.length_modify _ _ _)⟩)
    | none =>
      rw [hfind] at hsearch
      rcases appendDataPage_encoded hv page a with ⟨s', hfail, hfull⟩ | ⟨hcap, happend⟩
      · exact .inl ⟨s', bind_error (hsearch.trans hfail), hfull⟩
      · have hpage : h.addPage.pages[h.pages.length]? = some [] := by simp [addPage]
        obtain ⟨hok, hv'⟩ := insertAt_encoded hv.addPage page a (h.newRow tuple)
          hpage rfl rfl (Nat.le_of_not_lt hlarge)
        rw [bind_ok (hsearch.trans happend), hok]
        refine .inr (.inr ⟨_, _, rfl, rfl, hv', rfl, .inr ?_⟩)
        unfold WithinDevice at hcap ⊢
        rw [addRow, List.length_modify]
        exact hcap

end Encoded

section

variable (hrep : Rep s h)
include hrep

theorem insert_simulates (tuple : Tuple) : Simulates (insert tuple s) (Heap.insert tuple h) := by
  obtain ⟨hv, hcount, stored, active, rfl⟩ := hrep
  exact (insert_outcome hv _ active tuple).simulates hv hcount

theorem update_simulates (rid : ℕ) (tuple : Tuple) :
    Simulates (update rid tuple s) (Heap.update rid tuple h) := by
  obtain ⟨hv, hcount, stored, active, rfl⟩ := hrep
  exact (update_outcome hv _ active rid tuple).simulates hv hcount

theorem delete_simulates (rid : ℕ) : Simulates (delete rid s) (Heap.delete rid h) := by
  obtain ⟨hv, hcount, stored, active, rfl⟩ := hrep
  exact (delete_outcome hv _ active rid).simulates hv hcount

theorem restore_simulates (hrid : row.rid < h.nextRowId) :
    Simulates (restore row s) (Heap.restore row h) := by
  obtain ⟨hv, hcount, stored, active, rfl⟩ := hrep
  obtain ⟨a, b, hout⟩ := restore_outcome_of_lt hv (metadataOf h stored) active hrid
  exact hout.simulates hv hcount

theorem get_simulates (rid : ℕ) : Simulates (get rid s) (Heap.get rid h) := by
  obtain ⟨hv, hcount, stored, active, rfl⟩ := hrep
  exact Outcome.simulates (b := 0) (.inr (.inl (get_kept hv _ active rid))) hv hcount

theorem scan_simulates : Simulates (scan s) (Heap.scan h) := by
  obtain ⟨hv, hcount, stored, active, rfl⟩ := hrep
  exact Outcome.simulates (b := 0) (.inr (.inl (scan_kept hv _ active))) hv hcount

end

end Operations

end RowStore

end CourseDb

import CourseDb.Lib.Conformance
import CourseDb.Storage.DataPage

/-! # What the data pages of a row store hold

A property of rows that every row handed to the store has is a property of
every row the store returns. Nothing is assumed of the counters of the store or
of the device: a page that was allocated but never written holds no rows and is
not read as a data page.
-/

namespace CourseDb.RowStore

open Codec Heap
open Fallible (Keeps)

/-- A data page of rows with the property, or a page that was only allocated. -/
def PageHolds (P : Row → Prop) (pageSize : ℕ) (page : ByteString) : Prop :=
  page = List.replicate pageSize 0 ∨
    ∃ rows, page = dataPage pageSize rows ∧ PageFits pageSize rows ∧ ∀ row ∈ rows, P row

/-- Every page behind the metadata page holds rows with the property only. -/
structure Holds (P : Row → Prop) (pageSize : ℕ) (s : RowStore) : Prop where
  pageSize_eq : s.pageSize = pageSize
  managed : s.pageManager.pageSize = pageSize
  next_lt : s.nextRowId < 2 ^ 64
  pages : ∀ id page, s.pageManager.pages[id]? = some page → id ≠ metadataPageId →
    PageHolds P pageSize page

/-- The rows have the property, and their ids are 64-bit numbers. -/
def AllGood (P : Row → Prop) (rows : List Row) : Prop := ∀ row ∈ rows, row.rid < 2 ^ 64 ∧ P row

section Pages

variable {P : Row → Prop} {pageSize : ℕ} {s : RowStore} {page : ByteString} {rows : List Row}
  {row : Row} {tuple : Tuple}

theorem decodePage_zero (pageSize : ℕ) : ∃ e, decodePage (List.replicate pageSize 0) = .error e := by
  have hheader : ∃ e, deserializeDataPageHeader (List.replicate pageSize 0) = .error e := by
    unfold deserializeDataPageHeader
    split_ifs with hshort hmagic
    · exact ⟨_, rfl⟩
    · exact ⟨_, rfl⟩
    · exfalso
      apply hmagic
      intro heq
      have hmem : (67 : Byte) ∈ (List.replicate pageSize (0 : Byte)).take dataPageMagic.length := by
        rw [heq]
        decide
      have hzero := List.eq_of_mem_replicate (List.mem_of_mem_take hmem)
      exact absurd hzero (by decide)
  obtain ⟨e, he⟩ := hheader
  refine ⟨e, ?_⟩
  unfold decodePage
  rw [he]
  rfl

theorem decodePage_good (hsize : pageSize < 2 ^ 64) (hpage : PageHolds P pageSize page)
    (hok : decodePage page = .ok rows) : AllGood P rows := by
  rcases hpage with rfl | ⟨rows', rfl, hfits, hgood⟩
  · obtain ⟨e, he⟩ := decodePage_zero pageSize
    rw [he] at hok
    cases hok
  · intro row hrow
    have hmem := decodePage_subset hfits hsize hok hrow
    exact ⟨hfits.rid_lt row hmem, hgood row hmem⟩

theorem Holds.setPages (hs : Holds P pageSize s) {pages : List ByteString}
    (hpages : ∀ id page, pages[id]? = some page → id ≠ metadataPageId →
      PageHolds P pageSize page) :
    Holds P pageSize { s with pageManager := s.pageManager.setPages pages } :=
  ⟨hs.pageSize_eq, hs.managed, hs.next_lt, hpages⟩

theorem readPage_keeps (id : ℕ) :
    Keeps (Holds P pageSize) (onPages (PageManager.readPage id)) fun page =>
      id ≠ metadataPageId → PageHolds P pageSize page := by
  intro s hs
  unfold onPages Fallible.zoom PageManager.readPage
  split_ifs
  · exact ⟨hs, fun _ hok => by cases hok⟩
  · cases hpage : s.pageManager.pages[id]? with
    | none => exact ⟨hs, fun _ hok => by cases hok⟩
    | some page =>
      refine ⟨hs, fun _ hok => ?_⟩
      cases hok
      exact hs.pages id page hpage

theorem writePage_keeps {id : ℕ} {data : ByteString}
    (hdata : id ≠ metadataPageId → PageHolds P pageSize data) :
    Keeps (Holds P pageSize) (onPages (PageManager.writePage id data)) fun _ => True := by
  intro s hs
  unfold onPages Fallible.zoom PageManager.writePage
  split_ifs
  · exact ⟨hs, fun _ _ => trivial⟩
  · exact ⟨hs, fun _ _ => trivial⟩
  · exact ⟨hs, fun _ _ => trivial⟩
  · refine ⟨hs.setPages fun i page hpage hne => ?_, fun _ _ => trivial⟩
    by_cases hi : id = i
    · subst hi
      rw [List.getElem?_set_self' ] at hpage
      obtain ⟨old, -, rfl⟩ := Option.map_eq_some_iff.mp hpage
      exact hdata hne
    · rw [List.getElem?_set_ne hi] at hpage
      exact hs.pages i page hpage hne

theorem allocatePage_keeps :
    Keeps (Holds P pageSize) (onPages PageManager.allocatePage) fun _ => True := by
  intro s hs
  unfold onPages Fallible.zoom PageManager.allocatePage
  split_ifs
  · exact ⟨hs, fun _ _ => trivial⟩
  · exact ⟨hs, fun _ _ => trivial⟩
  · refine ⟨hs.setPages fun i page hpage hne => ?_, fun _ _ => trivial⟩
    rw [List.getElem?_append] at hpage
    split_ifs at hpage
    · exact hs.pages i page hpage hne
    · obtain rfl := List.mem_singleton.mp (List.mem_of_getElem? hpage)
      exact .inl (by rw [hs.managed])

theorem loadPageRows_keeps (hsize : pageSize < 2 ^ 64) (id : ℕ) :
    Keeps (Holds P pageSize) (loadPageRows id) fun rows =>
      id ≠ metadataPageId → AllGood P rows :=
  (readPage_keeps id).bind fun _ hpage =>
    Keeps.ofExcept fun _ hok hne => decodePage_good hsize (hpage hne) hok

theorem encodePage_good (hrows : AllGood P rows) (hok : encodePage pageSize rows = .ok page) :
    PageHolds P pageSize page := by
  by_cases hfit : pageHeaderSize + usedBytes rows ≤ pageSize
  · rw [encodePage_ok hfit] at hok
    cases hok
    exact .inr ⟨rows, rfl, ⟨hfit, fun row hrow => (hrows row hrow).1⟩,
      fun row hrow => (hrows row hrow).2⟩
  · unfold encodePage at hok
    simp only [serializeDataPageHeader_length, entries_length] at hok
    rw [if_pos (not_le.mp hfit)] at hok
    cases hok

theorem writePageRows_keeps {id : ℕ} (hrows : id ≠ metadataPageId → AllGood P rows) :
    Keeps (Holds P pageSize) (writePageRows id rows) fun _ => True := by
  refine Keeps.read.bind fun s hs => ?_
  rw [hs.pageSize_eq]
  refine (Keeps.ofExcept (Q := fun page => id ≠ metadataPageId → PageHolds P pageSize page)
    fun page hok hne => encodePage_good (hrows hne) hok).bind fun page hpage => ?_
  exact writePage_keeps hpage

theorem Holds.setCounters (hs : Holds P pageSize s) {next : ℕ} (hnext : next < 2 ^ 64)
    (count active : ℕ) (isOpen : Bool) :
    Holds P pageSize { s with
      isOpen, nextRowId := next, dataPageCount := count, activeRowCount := active } :=
  ⟨hs.pageSize_eq, hs.managed, hnext, hs.pages⟩

theorem writeMetadataPage_keeps : Keeps (Holds P pageSize) writeMetadataPage fun _ => True := by
  refine Keeps.read.bind fun s hs => Keeps.guard fun _ => ?_
  exact Keeps.guard fun _ => writePage_keeps fun hne => absurd rfl hne

theorem loadPagesFrom_keeps (hsize : pageSize < 2 ^ 64) (start n : ℕ) :
    Keeps (Holds P pageSize) (loadPagesFrom start n) (AllGood P) := by
  induction n generalizing start with
  | zero => exact Keeps.pure fun row hrow => by cases hrow
  | succ n ih =>
    refine (loadPageRows_keeps hsize _).bind fun pageRows hpage => ?_
    refine (ih (start + 1)).bind fun rest hrest => Keeps.pure fun row hrow => ?_
    rcases List.mem_append.mp hrow with hrow | hrow
    · exact hpage (Nat.succ_ne_zero start) row hrow
    · exact hrest row hrow

theorem loadAllRows_keeps (hsize : pageSize < 2 ^ 64) :
    Keeps (Holds P pageSize) loadAllRows (AllGood P) :=
  Keeps.read.bind fun s _ => Keeps.guard fun _ =>
    loadPagesFrom_keeps hsize 0 s.dataPageCount

theorem growDataPages_keeps (n : ℕ) :
    Keeps (Holds P pageSize) (growDataPages n) fun _ => True := by
  induction n with
  | zero => exact Keeps.pure trivial
  | succ n ih =>
    exact allocatePage_keeps.bind fun _ _ =>
      (Keeps.modify fun s hs => hs.setCounters hs.next_lt _ _ _).bind fun _ _ => ih

theorem writeBatchesFrom_keeps {batches : List (List Row)}
    (hbatches : ∀ batch ∈ batches, AllGood P batch) (start n : ℕ) :
    Keeps (Holds P pageSize) (writeBatchesFrom batches start n) fun _ => True := by
  induction n generalizing start with
  | zero => exact Keeps.pure trivial
  | succ n ih =>
    refine (writePageRows_keeps fun _ => ?_).bind fun _ _ => ih (start + 1)
    cases hbatch : batches[start]? with
    | none => exact fun row hrow => by cases hrow
    | some batch => exact hbatches batch (List.mem_of_getElem? hbatch)

theorem rewriteAllRows_keeps (hrows : AllGood P rows) :
    Keeps (Holds P pageSize) (rewriteAllRows rows) fun _ => True := by
  refine Keeps.read.bind fun s hs => Keeps.guard fun _ => ?_
  refine (Keeps.ofExcept (Q := fun batches => ∀ batch ∈ batches, AllGood P batch) ?_).bind
    fun batches hbatches => ?_
  · intro batches hpack batch hbatch row hrow
    obtain ⟨hflat, -⟩ := packRows_ok rows usedBytes_nil.symm (by simp) (by simp) hpack
    have hmem : row ∈ batches.flatten := List.mem_flatten.mpr ⟨batch, hbatch, hrow⟩
    rw [hflat] at hmem
    exact hrows row (by simpa using hmem)
  · refine (growDataPages_keeps _).bind fun _ _ => Keeps.read.bind fun s' _ => ?_
    refine (writeBatchesFrom_keeps hbatches 0 _).bind fun _ _ => ?_
    exact Keeps.guard fun _ => writePage_keeps fun hne => absurd rfl hne

theorem findPageFrom_keeps (entrySize start n : ℕ) :
    Keeps (Holds P pageSize) (findPageFrom entrySize start n) fun _ => True := by
  induction n generalizing start with
  | zero => exact Keeps.pure trivial
  | succ n ih =>
    refine (readPage_keeps _).bind fun page _ => ?_
    refine (Keeps.ofExcept (Q := fun _ => True) fun _ _ => trivial).bind fun header _ => ?_
    exact Keeps.read.bind fun s _ => Keeps.ite (fun _ => Keeps.pure trivial) fun _ => ih (start + 1)

theorem appendDataPage_keeps : Keeps (Holds P pageSize) appendDataPage fun _ => True := by
  refine allocatePage_keeps.bind fun pageId _ => ?_
  refine (Keeps.modify fun s hs => hs.setCounters hs.next_lt _ _ _).bind fun _ _ => ?_
  exact (writePageRows_keeps fun _ row hrow => by cases hrow).bind fun _ _ => Keeps.pure trivial

theorem findPageWithFreeSpace_keeps (entrySize : ℕ) :
    Keeps (Holds P pageSize) (findPageWithFreeSpace entrySize) fun _ => True := by
  refine Keeps.read.bind fun s _ => Keeps.guard fun _ => ?_
  refine Keeps.guard fun _ => ?_
  refine (findPageFrom_keeps _ 0 s.dataPageCount).bind fun found _ => ?_
  cases found with
  | none => exact appendDataPage_keeps
  | some pageId => exact Keeps.pure trivial

theorem insertAt_keeps (hsize : pageSize < 2 ^ 64) (pageId : ℕ) (hrow : row.rid < 2 ^ 64 ∧ P row) :
    Keeps (Holds P pageSize) (insertAt pageId row) fun _ => True := by
  refine (loadPageRows_keeps hsize pageId).bind fun pageRows hpage => ?_
  refine (writePageRows_keeps fun hne r hr => ?_).bind fun _ _ => ?_
  · rcases List.mem_append.mp hr with hr | hr
    · exact hpage hne r hr
    · rw [List.mem_singleton.mp hr]
      exact hrow
  · refine (Keeps.modify fun s hs => hs.setCounters (Nat.mod_lt _ (Nat.two_pow_pos 64)) _ _ _).bind
      fun _ _ => ?_
    exact writeMetadataPage_keeps.bind fun _ _ => Keeps.pure trivial

theorem insert_keeps (hsize : pageSize < 2 ^ 64) (htuple : ∀ rid, P ⟨rid, tuple, false⟩) :
    Keeps (Holds P pageSize) (insert tuple) fun _ => True := by
  refine Keeps.read.bind fun s hs => Keeps.guard fun _ => ?_
  exact (findPageWithFreeSpace_keeps _).bind fun pageId _ =>
    insertAt_keeps hsize pageId ⟨hs.next_lt, htuple _⟩

theorem AllGood.modify (hrows : AllGood P rows) (index : ℕ) {f : Row → Row}
    (hf : ∀ row, row.rid < 2 ^ 64 ∧ P row → (f row).rid < 2 ^ 64 ∧ P (f row)) :
    AllGood P (rows.modify index f) := by
  intro row hrow
  obtain ⟨i, hi⟩ := List.mem_iff_getElem?.mp hrow
  rw [List.getElem?_modify] at hi
  obtain ⟨old, hold, rfl⟩ := Option.map_eq_some_iff.mp hi
  have hgood := hrows old (List.mem_of_getElem? hold)
  split_ifs
  · exact hf old hgood
  · exact hgood

theorem update_keeps (hsize : pageSize < 2 ^ 64) (rid : ℕ)
    (htuple : ∀ rid deleted, P ⟨rid, tuple, deleted⟩) :
    Keeps (Holds P pageSize) (update rid tuple) fun _ => True := by
  refine (loadAllRows_keeps hsize).bind fun rows hrows => ?_
  refine (Keeps.ofExcept (Q := fun _ => True) fun _ _ => trivial).bind fun index _ => ?_
  refine Keeps.guard fun _ => rewriteAllRows_keeps ?_
  exact hrows.modify index fun row hrow => ⟨hrow.1, htuple _ _⟩

theorem delete_keeps (hsize : pageSize < 2 ^ 64) (rid : ℕ)
    (hflag : ∀ row, P row → P { row with deleted := true }) :
    Keeps (Holds P pageSize) (delete rid) fun _ => True := by
  refine (loadAllRows_keeps hsize).bind fun rows hrows => ?_
  refine (Keeps.ofExcept (Q := fun _ => True) fun _ _ => trivial).bind fun index _ => ?_
  refine Keeps.ite (fun _ => Keeps.pure trivial) fun _ => ?_
  refine (Keeps.modify fun s hs => hs.setCounters hs.next_lt _ _ _).bind fun _ _ => ?_
  exact rewriteAllRows_keeps (hrows.modify index fun row hrow => ⟨hrow.1, hflag row hrow.2⟩)

theorem AllGood.restoreInto (hrows : AllGood P rows) (hrid : row.rid < 2 ^ 64)
    (hrow : P { row with deleted := false }) : AllGood P (restoreInto rows row).1 := by
  unfold RowStore.restoreInto
  split
  · intro r hr
    rcases List.mem_or_eq_of_mem_set hr with hr | rfl
    · exact hrows r hr
    · exact ⟨hrid, hrow⟩
  · intro r hr
    rcases List.mem_append.mp hr with hr | hr
    · exact hrows r hr
    · rw [List.mem_singleton.mp hr]
      exact ⟨hrid, hrow⟩

section

variable (hsize : pageSize < 2 ^ 64)
include hsize

theorem restore_keeps (hrid : row.rid < 2 ^ 64) (hrow : P { row with deleted := false }) :
    Keeps (Holds P pageSize) (restore row) fun _ => True := by
  refine (loadAllRows_keeps hsize).bind fun rows hrows => ?_
  refine (Keeps.modify fun s hs =>
    hs.setCounters (max_lt hs.next_lt (Nat.mod_lt _ (Nat.two_pow_pos 64))) _ _ _).bind fun _ _ => ?_
  exact rewriteAllRows_keeps (hrows.restoreInto hrid hrow)

theorem getIncludingDeleted_keeps (rid : ℕ) :
    Keeps (Holds P pageSize) (getIncludingDeleted rid) P := by
  refine (loadAllRows_keeps hsize).bind fun rows hrows => ?_
  refine (Keeps.ofExcept (Q := fun index => ∃ row ∈ rows, rows[index]? = some row) ?_).bind
    fun index hindex => ?_
  · intro index hok
    unfold findRowIndexById at hok
    cases hfind : rows.findIdx? (fun row => row.rid = rid) with
    | none =>
      rw [hfind] at hok
      cases hok
    | some i =>
      rw [hfind] at hok
      cases hok
      obtain ⟨hlt, -⟩ := List.findIdx?_eq_some_iff_getElem.mp hfind
      exact ⟨rows[index], List.getElem_mem hlt, List.getElem?_eq_getElem hlt⟩
  · obtain ⟨row, hmem, hget⟩ := hindex
    rw [hget]
    exact Keeps.pure (hrows row hmem).2

theorem get_keeps (rid : ℕ) : Keeps (Holds P pageSize) (get rid) P :=
  (getIncludingDeleted_keeps hsize rid).bind fun _ hrow =>
    Keeps.guard fun _ => Keeps.pure hrow

theorem scan_keeps : Keeps (Holds P pageSize) scan fun rows => ∀ row ∈ rows, P row :=
  (loadAllRows_keeps hsize).bind fun _ hrows =>
    Keeps.pure fun row hrow => (hrows row (List.mem_filter.mp hrow).1).2

end

theorem openFile_keeps :
    Keeps (Holds P pageSize) (onPages PageManager.openFile) fun _ => True := by
  intro s hs
  refine ⟨?_, fun _ _ => trivial⟩
  unfold onPages Fallible.zoom PageManager.openFile
  split_ifs
  · exact hs
  · exact hs
  · cases hfile : s.pageManager.file with
    | none => exact ⟨hs.pageSize_eq, hs.managed, hs.next_lt, fun id page hpage => by cases hpage⟩
    | some file =>
      dsimp only
      split_ifs
      · exact hs
      · refine ⟨hs.pageSize_eq, hs.managed, hs.next_lt, fun id page hpage => hs.pages id page ?_⟩
        rw [PageManager.pages, hfile]
        exact hpage

theorem initializeStore_keeps : Keeps (Holds P pageSize) initializeStore fun _ => True := by
  refine allocatePage_keeps.bind fun id _ => Keeps.guard fun hid => ?_
  refine Keeps.read.bind fun s _ => Keeps.guard fun _ => ?_
  refine (writePage_keeps fun hne => absurd (not_not.mp hid) hne).bind fun _ _ => ?_
  exact Keeps.modify fun s hs => hs.setCounters (Nat.two_pow_pos 64) _ _ _

theorem deserializeMetadata_next_lt {m : Metadata} (hok : deserializeMetadata page = .ok m) :
    m.nextRowId < 2 ^ 64 := by
  have hread : Consumes readMetadata fun m _ => m.nextRowId < 2 ^ 64 := by
    refine readUint32_consumes.bind fun version _ _ => ?_
    refine readUint64_consumes.bind fun next _ hnext => ?_
    refine readUint64_consumes.bind fun count _ _ => ?_
    exact readUint64_consumes.bind fun active _ _ => Consumes.pure hnext.2
  unfold deserializeMetadata at hok
  split_ifs at hok with hshort
  cases hfields : readMetadata page metadataPagePayloadOffset with
  | error e =>
    rw [hfields] at hok
    cases hok
  | ok p =>
    rw [hfields] at hok
    cases hok
    obtain ⟨w, -, -, -, hlt⟩ := hread _ _ _ _ hfields (not_lt.mp hshort)
    exact hlt

theorem loadMetadata_keeps (page : ByteString) :
    Keeps (Holds P pageSize) (loadMetadata page) fun _ => True := by
  refine (Keeps.ofExcept (Q := fun metadata => metadata.nextRowId < 2 ^ 64) ?_).bind
    fun metadata hnext => ?_
  · exact fun metadata hok => deserializeMetadata_next_lt hok
  · exact Keeps.guard fun _ =>
      Keeps.modify fun s hs => hs.setCounters hnext _ _ _

theorem openStore_keeps : Keeps (Holds P pageSize) openStore fun _ => True := by
  refine Keeps.read.bind fun s hs => Keeps.ite (fun _ => Keeps.pure trivial) fun _ => ?_
  refine openFile_keeps.bind fun _ _ => ?_
  have hload : Keeps (Holds P pageSize) loadOrInitialize fun _ => True := by
    refine Keeps.read.bind fun s hs => ?_
    cases (PageManager.readPage metadataPageId s.pageManager).1 with
    | error status => exact Keeps.guard fun _ => initializeStore_keeps
    | ok page => exact loadMetadata_keeps page
  exact hload.bind fun _ _ => Keeps.modify fun s hs => hs.setCounters hs.next_lt _ _ _

end Pages

end CourseDb.RowStore

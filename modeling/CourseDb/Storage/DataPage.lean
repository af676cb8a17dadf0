import CourseDb.Storage.Heap

/-! # Data pages and their rows

The bytes of a data page determine its rows: what `WritePageRows` writes,
`LoadPageRows` reads back, unless one of the rows has more values than the
tuple reader accepts.
-/

namespace CourseDb.RowStore

open Codec Heap
open Fallible (read_bind bind_ok bind_eq_ok)

variable {pageSize : ℕ} {rows : List Row} {row : Row}

theorem fillPage_length {bytes : ByteString} (h : bytes.length ≤ pageSize) :
    (fillPage pageSize bytes).length = pageSize := by
  simp only [fillPage, List.length_append, List.length_replicate]
  omega

theorem serializeRowEntry_length (row : Row) :
    entrySize row = 4 + (serializeRow row).length := by
  simp [entrySize, serializeRowEntry]

theorem entrySize_eq (row : Row) : entrySize row = 21 + (serializeTuple row.tuple).length := by
  rw [serializeRowEntry_length, serializeRow_length]
  omega

theorem entries_length (rows : List Row) :
    (rows.flatMap serializeRowEntry).length = usedBytes rows := by
  rw [List.length_flatMap]
  rfl

theorem entrySize_le_usedBytes (h : row ∈ rows) : entrySize row ≤ usedBytes rows :=
  List.le_sum_of_mem (List.mem_map_of_mem h)

/-- A row whose id and size fit their fields. -/
structure Storable (row : Row) : Prop where
  rid_lt : row.rid < 2 ^ 64
  size_lt : (serializeRow row).length < 2 ^ 32

theorem deserializeRowEntry_decodes (h : Storable row) (hn : row.tuple.length ≤ maxTupleValues) :
    Decodes deserializeRowEntry (serializeRowEntry row) row := by
  have hrow := deserializeRow_decodes row h.rid_lt hn h.size_lt
  exact (readUint32_decodes h.size_lt).bind (Gives.ensure le_rfl (hrow.sized rfl))

theorem deserializeRowEntry_rejects (h : Storable row) (hn : ¬ row.tuple.length ≤ maxTupleValues) :
    Rejects deserializeRowEntry (serializeRowEntry row) tupleTooLong := by
  have hsize := h.size_lt
  rw [serializeRow_length] at hsize
  exact (readUint32_decodes h.size_lt).bind (Gives.ensure le_rfl (Rejects.sized
    (deserializeRow_rejects h.rid_lt (not_le.mp hn) (by omega))))

/-- A row that is too long for its size field is not read as another one: its tuple, which has
a 64-bit size, is read to its end, and that is not where the size field says. -/
theorem deserializeRowEntry_eq_ok {pre post : ByteString} {r : Row} {off : ℕ}
    (hrid : row.rid < 2 ^ 64) (hsize : entrySize row < 2 ^ 64)
    (h : deserializeRowEntry (pre ++ (serializeRowEntry row ++ post)) pre.length = .ok (r, off)) :
    r = row ∧ off = pre.length + entrySize row := by
  by_cases hlt : (serializeRow row).length < 2 ^ 32
  · by_cases hn : row.tuple.length ≤ maxTupleValues
    · rw [deserializeRowEntry_decodes ⟨hrid, hlt⟩ hn] at h
      cases h
      exact ⟨rfl, rfl⟩
    · rw [deserializeRowEntry_rejects ⟨hrid, hlt⟩ hn] at h
      cases h
  · have hrefused : Gives deserializeRowEntry (serializeRowEntry row) fun result _ =>
        ∀ a, result ≠ .ok a := by
      refine (readUint32_decodes_mod _).bind (Gives.ensure (Nat.mod_le _ _) ?_)
      intro pre post a hok
      obtain ⟨hrow, hlen⟩ := Reader.sized_eq_ok hok
      have hstop := deserializeRow_takes hrid (by rw [entrySize_eq] at hsize; omega) _ _ _ _ hrow
      have hmod := Nat.mod_lt (serializeRow row).length (Nat.two_pow_pos 32)
      omega
    exact absurd h (hrefused pre post _)

/-- The bytes of a data page that holds `rows`. -/
def dataPage (pageSize : ℕ) (rows : List Row) : ByteString :=
  fillPage pageSize (serializeDataPageHeader
    { version := rowStoreVersion, entryCount := rows.length, usedBytes := usedBytes rows } ++
      rows.flatMap serializeRowEntry)

/-- The rows fit into one page and each of them fits its fields. -/
structure PageFits (pageSize : ℕ) (rows : List Row) : Prop where
  size_le : pageHeaderSize + usedBytes rows ≤ pageSize
  rid_lt : ∀ row ∈ rows, row.rid < 2 ^ 64

theorem PageFits.storable (h : PageFits pageSize rows) (hmax : pageSize < 2 ^ 32)
    (hrow : row ∈ rows) : Storable row := by
  have hle := entrySize_le_usedBytes hrow
  have hsize := h.size_le
  rw [serializeRowEntry_length] at hle
  exact ⟨h.rid_lt row hrow, by omega⟩

theorem rows_length_le_usedBytes (rows : List Row) : rows.length ≤ usedBytes rows := by
  induction rows with
  | nil => simp
  | cons row rows ih =>
    simp only [usedBytes, List.map_cons, List.sum_cons, List.length_cons, entrySize_eq] at ih ⊢
    omega

theorem serializeDataPageHeader_length (h : DataPageHeader) :
    (serializeDataPageHeader h).length = pageHeaderSize := by
  simp [serializeDataPageHeader, pageHeaderSize, dataPagePayloadOffset]

theorem dataPage_eq (pageSize : ℕ) (rows : List Row) :
    ∃ pad, dataPage pageSize rows =
      serializeDataPageHeader
        { version := rowStoreVersion, entryCount := rows.length, usedBytes := usedBytes rows } ++
        (rows.flatMap serializeRowEntry ++ pad) :=
  ⟨_, by rw [dataPage, fillPage, List.append_assoc]⟩

theorem dataPage_length (h : pageHeaderSize + usedBytes rows ≤ pageSize) :
    (dataPage pageSize rows).length = pageSize := by
  apply fillPage_length
  rw [List.length_append, serializeDataPageHeader_length, entries_length]
  exact h

theorem encodePage_ok (h : pageHeaderSize + usedBytes rows ≤ pageSize) :
    encodePage pageSize rows = .ok (dataPage pageSize rows) := by
  unfold encodePage
  simp only [serializeDataPageHeader_length, entries_length]
  rw [if_neg (by omega), dataPage]

theorem deserializeDataPageHeader_append (h : DataPageHeader) (post : ByteString) :
    deserializeDataPageHeader (serializeDataPageHeader h ++ post) =
      .ok ⟨h.version % 2 ^ 32, h.entryCount % 2 ^ 32, h.usedBytes % 2 ^ 32⟩ := by
  have hdec : Decodes readDataPageHeader
      (writeUint32 h.version ++ (writeUint32 h.entryCount ++ writeUint32 h.usedBytes))
      ⟨h.version % 2 ^ 32, h.entryCount % 2 ^ 32, h.usedBytes % 2 ^ 32⟩ :=
    (readUint32_decodes_mod _).bind ((readUint32_decodes_mod _).bind
      ((readUint32_decodes_mod _).map (Decodes.pure _)))
  have hread := hdec.front dataPageMagic post rfl
  unfold deserializeDataPageHeader
  rw [if_neg (by simp [serializeDataPageHeader, dataPagePayloadOffset]),
    if_neg (by simp [serializeDataPageHeader])]
  rw [serializeDataPageHeader, List.append_assoc, dataPagePayloadOffset, hread]
  rfl

theorem deserializeDataPageHeader_dataPage (h : pageHeaderSize + usedBytes rows ≤ pageSize)
    (hmax : pageSize < 2 ^ 32) : deserializeDataPageHeader (dataPage pageSize rows) =
      .ok { version := rowStoreVersion, entryCount := rows.length,
            usedBytes := usedBytes rows } := by
  obtain ⟨pad, hpage⟩ := dataPage_eq pageSize rows
  have hrows := rows_length_le_usedBytes rows
  rw [hpage, deserializeDataPageHeader_append, Nat.mod_eq_of_lt (by omega : rows.length < 2 ^ 32),
    Nat.mod_eq_of_lt (by omega : usedBytes rows < 2 ^ 32)]
  rfl

theorem readEntries_spec (rows : List Row) (usedEnd : ℕ) (pre post : ByteString)
    (hrows : ∀ row ∈ rows, Storable row) (hend : pre.length + usedBytes rows ≤ usedEnd) :
    readEntries usedEnd rows.length (pre ++ (rows.flatMap serializeRowEntry ++ post)) pre.length =
      (readRows rows).map fun rows => (rows, pre.length + usedBytes rows) := by
  induction rows generalizing pre with
  | nil => simp [readEntries, readRows, usedBytes, Reader.pure_apply, Except.map]
  | cons row rows ih =>
    have hused : usedBytes (row :: rows) = entrySize row + usedBytes rows := by
      simp [usedBytes]
    have hpos := entrySize_eq row
    have hnot : ¬ pre.length ≥ usedEnd := by omega
    simp only [List.length_cons, readEntries, Reader.bind_apply, Reader.offset, hnot, if_false,
      List.flatMap_cons, List.append_assoc]
    by_cases hn : row.tuple.length ≤ maxTupleValues
    · have hread := deserializeRowEntry_decodes (hrows row (by simp)) hn pre
        (rows.flatMap serializeRowEntry ++ post)
      have hrest := ih (pre ++ serializeRowEntry row) (fun r hr => hrows r (by simp [hr]))
        (by rw [List.length_append]; change pre.length + entrySize row + _ ≤ _; omega)
      rw [List.append_assoc, List.length_append] at hrest
      rw [hread]
      simp only [hrest]
      by_cases hall : rows.all fun row => row.tuple.length ≤ maxTupleValues
      · have hlen : (serializeRowEntry row).length = entrySize row := rfl
        simp only [readRows, List.all_cons, hn, hall, decide_true, Bool.and_self, if_true,
          Except.map, Reader.pure_apply, hused, hlen, Nat.add_assoc]
      · simp [readRows, hn, hall, Except.map]
    · rw [deserializeRowEntry_rejects (hrows row (by simp)) hn pre]
      simp [readRows, hn, Except.map]

theorem decodePage_dataPage (h : PageFits pageSize rows) (hmax : pageSize < 2 ^ 32) :
    decodePage (dataPage pageSize rows) = readRows rows := by
  have hheader := deserializeDataPageHeader_dataPage h.size_le hmax
  obtain ⟨pad, hpage⟩ := dataPage_eq pageSize rows
  have hlen := dataPage_length h.size_le
  have hentries := readEntries_spec rows (pageHeaderSize + usedBytes rows)
    (serializeDataPageHeader
      { version := rowStoreVersion, entryCount := rows.length, usedBytes := usedBytes rows })
    pad (fun row hrow => h.storable hmax hrow)
    (by rw [serializeDataPageHeader_length])
  rw [← hpage, serializeDataPageHeader_length] at hentries
  unfold decodePage
  rw [hheader]
  simp only [bind, Except.bind, ne_eq, not_true_eq_false, if_false, hlen,
    Nat.not_lt.mpr h.size_le, hentries]
  unfold readRows
  split_ifs <;> simp [Except.map, pure, Except.pure]

theorem readEntries_subset {n usedEnd off : ℕ} {pre post : ByteString} {rows' : List Row}
    (hrows : ∀ row ∈ rows, row.rid < 2 ^ 64 ∧ entrySize row < 2 ^ 64) (hn : n ≤ rows.length)
    (h : readEntries usedEnd n (pre ++ (rows.flatMap serializeRowEntry ++ post)) pre.length =
      .ok (rows', off)) : rows' ⊆ rows := by
  induction n generalizing rows rows' pre with
  | zero =>
    cases h
    exact List.nil_subset _
  | succ n ih =>
    cases rows with
    | nil => cases hn
    | cons row rows =>
      obtain ⟨start, _, hstart, h₁⟩ := Reader.bind_eq_ok h
      cases hstart
      split_ifs at h₁
      · cases h₁
      · obtain ⟨r, mid, hr, h₂⟩ := Reader.bind_eq_ok h₁
        obtain ⟨rest, _, hrest, h₃⟩ := Reader.bind_eq_ok h₂
        cases h₃
        obtain ⟨hrow, htail⟩ := List.forall_mem_cons.mp hrows
        rw [List.flatMap_cons, List.append_assoc] at hr hrest
        obtain ⟨rfl, rfl⟩ := deserializeRowEntry_eq_ok hrow.1 hrow.2 hr
        rw [← List.append_assoc, entrySize, ← List.length_append] at hrest
        exact List.cons_subset_cons _ (ih htail (Nat.le_of_succ_le_succ hn) hrest)

/-- Whatever is read from a page was written there, also where a length has been cut. -/
theorem decodePage_subset {rows' : List Row} (h : PageFits pageSize rows) (hmax : pageSize < 2 ^ 64)
    (hok : decodePage (dataPage pageSize rows) = .ok rows') : rows' ⊆ rows := by
  obtain ⟨pad, hpage⟩ := dataPage_eq pageSize rows
  obtain ⟨header, hheader, hok⟩ := except_bind_eq_ok.mp hok
  rw [hpage, deserializeDataPageHeader_append] at hheader
  cases hheader
  split_ifs at hok
  obtain ⟨⟨rows'', off⟩, hread, hok⟩ := except_bind_eq_ok.mp hok
  dsimp only at hok
  split_ifs at hok
  cases hok
  rw [hpage, ← serializeDataPageHeader_length] at hread
  refine readEntries_subset (fun row hrow => ⟨h.rid_lt row hrow, ?_⟩) (Nat.mod_le _ _) hread
  have hle := entrySize_le_usedBytes hrow
  have hsize := h.size_le
  omega

section RoundTrip

variable {s s' : RowStore} {id : ℕ}

end RoundTrip

end CourseDb.RowStore

import CourseDb.Common.Serialization
import CourseDb.Lib.Blocks
import CourseDb.Lib.Conformance
import CourseDb.Storage.PageManager

/-! # Page files as flat byte arrays

The page manager at the level of its file. Header and pages are one byte array
that is addressed by offsets, and the page count is kept in memory, in the
header and in the length of the file. Every run of its calls answers as the
array of pages does on which the row store and the trees are built. The file
itself fails only where it would outgrow the largest file offset.
-/

namespace CourseDb

open Codec Blocks
open Fallible (fail bind_apply)
open PageManager (notOpen outOfRange)

structure PageFileHeader where
  magic : ByteString
  version : ℕ
  pageSize : ℕ
  pageCount : ℕ

/-- The bytes that the compiler leaves between the version and the page size. -/
abbrev HeaderPadding := { bytes : ByteString // bytes.length = 4 }

structure FlatPageManager where
  filePath : ByteString
  pageSize : ℕ
  /-- The bytes of the file, if it exists. -/
  file : Option ByteString := none
  isOpen : Bool := false
  pageCount : ℕ := 0

namespace FlatPageManager

abbrev Action (α : Type) := Fallible Status FlatPageManager α

/-- "CDBPAGE1" -/
def pageFileMagic : ByteString := [67, 68, 66, 80, 65, 71, 69, 49]

def pageFileVersion : ℕ := 1

def makeHeader (pageSize pageCount : ℕ) : PageFileHeader :=
  { magic := pageFileMagic, version := pageFileVersion, pageSize, pageCount }

/-- The memory of a header, which is what the file holds of it. -/
def headerBytes (padding : HeaderPadding) (header : PageFileHeader) : ByteString :=
  header.magic ++ (writeUint32 header.version ++ (padding.val ++
    (writeUint64 header.pageSize ++ writeUint64 header.pageCount)))

def writeHeader (padding : HeaderPadding) (pageSize pageCount : ℕ) : Action Unit :=
  Fallible.modify fun pm => { pm with
    file := some (overwrite (pm.file.getD []) 0
      (headerBytes padding (makeHeader pageSize pageCount))) }

def headerUnreadable : Status := ⟨.kIoError, "Failed to read page file header"⟩

def readHeader : Reader Status PageFileHeader := do
  Reader.ensure headerUnreadable pageFileHeaderSize
  let magic ← Reader.take 8
  let version ← readUint32
  let _ ← Reader.take 4
  let pageSize ← readUint64
  let pageCount ← readUint64
  return { magic, version, pageSize, pageCount }

/-- `PageOffset`, in 64-bit arithmetic. -/
def pageOffset (id pageSize : ℕ) : ℕ := (pageFileHeaderSize + id * pageSize) % 2 ^ 64

/-- The checks of `Open` on the file, and the page count that its length implies. -/
def checkFile (pageSize : ℕ) (file : ByteString) : Except Status ℕ := do
  if file.length < pageFileHeaderSize then
    .error ⟨.kInvalidArgument, "Page file is smaller than required header"⟩
  else
    let (header, _) ← readHeader file 0
    if header.magic ≠ pageFileMagic then
      .error ⟨.kInvalidArgument, "Invalid page file magic"⟩
    else if header.version ≠ pageFileVersion then
      .error ⟨.kInvalidArgument, "Unsupported page file version"⟩
    else if header.pageSize ≠ pageSize then
      .error ⟨.kInvalidArgument, "Page size mismatch: file uses " ++ toString header.pageSize ++
        ", manager was configured with " ++ toString pageSize⟩
    else
      let payloadSize := file.length - pageFileHeaderSize
      if payloadSize % pageSize ≠ 0 then
        .error ⟨.kInvalidArgument, "Page payload size " ++ toString payloadSize ++
          " is not a multiple of page size " ++ toString pageSize⟩
      else if header.pageCount ≠ payloadSize / pageSize then
        .error ⟨.kInvalidArgument, "Page count mismatch: header says " ++
          toString header.pageCount ++ ", file layout says " ++ toString (payloadSize / pageSize)⟩
      else
        return payloadSize / pageSize

def openFile (padding : HeaderPadding) : Action Unit := do
  let pm ← Fallible.read
  if pm.isOpen then
    return ()
  else if pm.filePath = [] ∨ pm.pageSize = 0 then
    fail ⟨.kInvalidArgument, "Invalid file path or page size"⟩
  else
    let file := pm.file.getD (headerBytes padding (makeHeader pm.pageSize 0))
    Fallible.modify fun pm => { pm with file := some file }
    let pageCount ← Fallible.ofExcept (checkFile pm.pageSize file)
    Fallible.modify fun pm => { pm with pageCount, isOpen := true }

def readPage (id : ℕ) : Action ByteString := do
  let pm ← Fallible.read
  if !pm.isOpen then
    fail notOpen
  else if pm.pageCount ≤ id then
    fail (outOfRange id pm.pageCount)
  else
    let offset := pageOffset id pm.pageSize
    if offset > maxFileOffset then
      fail ⟨.kIoError, "Failed to seek to page " ++ toString id ++ " at offset " ++
        toString offset⟩
    else
      let data := slice (pm.file.getD []) offset pm.pageSize
      if data.length ≠ pm.pageSize then
        fail ⟨.kIoError, "Failed to read page " ++ toString id ++ ", expected " ++
          toString pm.pageSize ++ " bytes, got " ++ toString data.length⟩
      else
        return data

def writePage (id : ℕ) (data : ByteString) : Action Unit := do
  let pm ← Fallible.read
  if !pm.isOpen then
    fail notOpen
  else if pm.pageCount ≤ id then
    fail (outOfRange id pm.pageCount)
  else if data.length ≠ pm.pageSize then
    fail ⟨.kInvalidArgument, "Page data size does not match page size"⟩
  else
    let offset := pageOffset id pm.pageSize
    if offset > maxFileOffset then
      fail ⟨.kIoError, "Failed to seek to page " ++ toString id ++ " at offset " ++
        toString offset ++ " for writing"⟩
    else
      Fallible.modify fun pm => { pm with file := some (overwrite (pm.file.getD []) offset data) }

def allocatePage (padding : HeaderPadding) : Action ℕ := do
  let pm ← Fallible.read
  if !pm.isOpen then
    fail notOpen
  else
    let file := pm.file.getD []
    if file.length + pm.pageSize > maxFileOffset then
      fail PageManager.allocationFailed
    else
      Fallible.modify fun pm => { pm with
        file := some (file ++ List.replicate pm.pageSize 0)
        pageCount := pm.pageCount + 1 }
      writeHeader padding pm.pageSize (pm.pageCount + 1)
      return pm.pageCount

/-- The object is destroyed, and a new one opens the same file. -/
def reopen (padding : HeaderPadding) : Action Unit := do
  Fallible.modify fun pm =>
    { filePath := pm.filePath, pageSize := pm.pageSize, file := pm.file }
  openFile padding

section Layout

variable {path : ByteString} {pageSize id : ℕ} {padding : HeaderPadding} {pages : List ByteString}
  {data : ByteString}

def layout (padding : HeaderPadding) (pageSize : ℕ) (pages : List ByteString) : ByteString :=
  headerBytes padding (makeHeader pageSize pages.length) ++ pages.flatten

/-- A manager that has opened a file of these pages. -/
def opened (path : ByteString) (padding : HeaderPadding) (pageSize : ℕ)
    (pages : List ByteString) : FlatPageManager :=
  { filePath := path, pageSize, file := some (layout padding pageSize pages), isOpen := true,
    pageCount := pages.length }

/-- Pages of the right size in a file that is not too large. -/
structure Fits (pageSize : ℕ) (pages : List ByteString) : Prop where
  size_pos : 0 < pageSize
  size_lt : pageSize < 2 ^ 64
  uniform : Uniform pageSize pages
  file_le : pageFileHeaderSize + pages.length * pageSize ≤ maxFileOffset

theorem headerBytes_length (padding : HeaderPadding) (pageSize pageCount : ℕ) :
    (headerBytes padding (makeHeader pageSize pageCount)).length = pageFileHeaderSize := by
  simp [headerBytes, makeHeader, pageFileMagic, padding.property, pageFileHeaderSize]

theorem readHeader_decodes {pageCount : ℕ} (hsize : pageSize < 2 ^ 64)
    (hcount : pageCount < 2 ^ 64) :
    Decodes readHeader (headerBytes padding (makeHeader pageSize pageCount))
      (makeHeader pageSize pageCount) := by
  refine Gives.ensure (headerBytes_length padding pageSize pageCount).ge ?_
  have hpad : Decodes (Reader.take 4 : Reader Status _) padding.val padding.val := by
    simpa [padding.property] using Decodes.take (ε := Status) padding.val
  have hversion : pageFileVersion < 2 ^ 32 := by decide
  exact (Decodes.take pageFileMagic).bind ((readUint32_decodes hversion).bind (hpad.bind
    ((readUint64_decodes hsize).bind ((readUint64_decodes hcount).map (Decodes.pure _)))))

namespace Fits

theorem nil (hpos : 0 < pageSize) (hlt : pageSize < 2 ^ 64) : Fits pageSize [] :=
  ⟨hpos, hlt, by simp [Uniform], by simp [pageFileHeaderSize, maxFileOffset]⟩

section

variable (h : Fits pageSize pages)
include h

theorem set (hdata : data.length = pageSize) : Fits pageSize (pages.set id data) :=
  ⟨h.size_pos, h.size_lt, h.uniform.set hdata, by simpa using h.file_le⟩

theorem append (hle : pageFileHeaderSize + (pages.length + 1) * pageSize ≤ maxFileOffset) :
    Fits pageSize (pages ++ [List.replicate pageSize 0]) :=
  ⟨h.size_pos, h.size_lt, h.uniform.append List.length_replicate, by simpa using hle⟩

theorem length_layout :
    (layout padding pageSize pages).length = pageFileHeaderSize + pages.length * pageSize := by
  rw [layout, List.length_append, headerBytes_length, h.uniform.length_flatten]

theorem length_lt : pages.length < 2 ^ 63 := by
  have hle := h.file_le
  have hmul := Nat.le_mul_of_pos_right pages.length h.size_pos
  simp only [maxFileOffset] at hle
  omega

/-- The offset of a page does not overflow. -/
theorem pageOffset_eq (hid : id < pages.length) :
    pageOffset id pageSize = pageFileHeaderSize + id * pageSize ∧
      pageOffset id pageSize ≤ maxFileOffset := by
  have hle := h.file_le
  have hmul := Nat.mul_le_mul_right pageSize hid.le
  have hmod : pageOffset id pageSize = pageFileHeaderSize + id * pageSize := by
    apply Nat.mod_eq_of_lt
    simp only [maxFileOffset] at hle
    omega
  exact ⟨hmod, by omega⟩

theorem checkFile_layout :
    checkFile pageSize (layout padding pageSize pages) = .ok pages.length := by
  have hlen : (layout padding pageSize pages).length =
      pageFileHeaderSize + pages.length * pageSize := h.length_layout
  have hcount : pages.length < 2 ^ 64 := h.length_lt.trans (by decide)
  have hread : readHeader (layout padding pageSize pages) 0 =
      .ok (makeHeader pageSize pages.length, _) :=
    readHeader_decodes h.size_lt hcount [] pages.flatten
  unfold checkFile
  rw [if_neg (by omega), hread]
  have hpayload : (layout padding pageSize pages).length - pageFileHeaderSize =
      pages.length * pageSize := by omega
  simp only [bind, Except.bind, makeHeader, ne_eq, not_true_eq_false, if_false, hpayload,
    Nat.mul_mod_left, Nat.mul_div_cancel _ h.size_pos]
  rfl

theorem readPage_opened (path : ByteString) (padding : HeaderPadding) (id : ℕ) :
    readPage id (opened path padding pageSize pages) =
      (match pages[id]? with
        | none => .error (outOfRange id pages.length)
        | some data => .ok data, opened path padding pageSize pages) := by
  cases hpage : pages[id]? with
  | none =>
    have hid : pages.length ≤ id := List.getElem?_eq_none_iff.mp hpage
    simp [readPage, bind_apply, opened, hid]
  | some data =>
    obtain ⟨hid, -⟩ := List.getElem?_eq_some_iff.mp hpage
    obtain ⟨hoffset, hseek⟩ := h.pageOffset_eq hid
    have hdata : slice (layout padding pageSize pages) (pageOffset id pageSize) pageSize = data := by
      rw [hoffset, layout, ← headerBytes_length padding pageSize pages.length, slice_append]
      exact h.uniform.slice_flatten hpage
    have hlen : data.length = pageSize := h.uniform data (List.mem_of_getElem? hpage)
    simp [readPage, bind_apply, opened, not_le.mpr hid, not_lt.mpr hseek, hdata, hlen]

theorem writePage_opened (path : ByteString) (padding : HeaderPadding) (id : ℕ)
    (data : ByteString) :
    writePage id data (opened path padding pageSize pages) =
      if pages.length ≤ id then
        (.error (outOfRange id pages.length), opened path padding pageSize pages)
      else if data.length ≠ pageSize then
        (.error ⟨.kInvalidArgument, "Page data size does not match page size"⟩,
          opened path padding pageSize pages)
      else
        (.ok (), opened path padding pageSize (pages.set id data)) := by
  split_ifs with hid hdata
  · simp [writePage, bind_apply, opened, hid]
  · simp [writePage, bind_apply, opened, hid, hdata]
  · rw [not_le] at hid
    rw [not_not] at hdata
    obtain ⟨hoffset, hseek⟩ := h.pageOffset_eq hid
    have hfile : overwrite (layout padding pageSize pages) (pageOffset id pageSize) data =
        layout padding pageSize (pages.set id data) := by
      rw [hoffset, layout, ← headerBytes_length padding pageSize pages.length, overwrite_append,
        h.uniform.overwrite_flatten hid hdata, layout, List.length_set]
    simp [writePage, bind_apply, opened, not_le.mpr hid, hdata, not_lt.mpr hseek, hfile]

theorem allocatePage_opened (path : ByteString) (padding padding' : HeaderPadding) :
    allocatePage padding' (opened path padding pageSize pages) =
      if pageFileHeaderSize + (pages.length + 1) * pageSize > maxFileOffset then
        (.error PageManager.allocationFailed, opened path padding pageSize pages)
      else
        (.ok pages.length,
          opened path padding' pageSize (pages ++ [List.replicate pageSize 0])) := by
  have hlen : (layout padding pageSize pages).length + pageSize =
      pageFileHeaderSize + (pages.length + 1) * pageSize := by
    rw [h.length_layout]
    ring
  have hheader : overwrite (layout padding pageSize pages ++ List.replicate pageSize 0) 0
      (headerBytes padding' (makeHeader pageSize (pages.length + 1))) =
      layout padding' pageSize (pages ++ [List.replicate pageSize 0]) := by
    rw [layout, List.append_assoc, overwrite_front, layout, List.length_append,
      List.flatten_append, List.flatten_singleton]
    · rfl
    · rw [headerBytes_length, headerBytes_length]
  simp only [allocatePage, bind_apply, Fallible.read_apply, opened, Bool.not_true,
    Bool.false_eq_true, if_false, Option.getD_some, hlen]
  split_ifs
  · rfl
  · simp [bind_apply, writeHeader, hheader]

theorem reopen_opened (hpath : path ≠ []) (padding' : HeaderPadding) :
    reopen padding' (opened path padding pageSize pages) =
      (.ok (), opened path padding pageSize pages) := by
  unfold reopen openFile
  simp [bind_apply, opened, hpath, h.size_pos.ne', h.checkFile_layout]

end

end Fits

end Layout

inductive Call where
  | openFile (padding : HeaderPadding)
  | allocatePage (padding : HeaderPadding)
  | writePage (id : ℕ) (data : ByteString)
  | readPage (id : ℕ)
  | reopen (padding : HeaderPadding)

inductive Answer where
  | done
  | allocated (id : ℕ)
  | contents (data : ByteString)

def call : Call → Action Answer
  | .openFile padding => do
    openFile padding
    return .done
  | .allocatePage padding => do
    let id ← allocatePage padding
    return .allocated id
  | .writePage id data => do
    writePage id data
    return .done
  | .readPage id => do
    let data ← readPage id
    return .contents data
  | .reopen padding => do
    reopen padding
    return .done

def step (pm : FlatPageManager) (c : Call) : Except Status Answer × FlatPageManager := call c pm

/-- A new object on the same array of pages. -/
def reopenPages : Fallible Status PageManager Unit := do
  Fallible.modify fun pm => PageManager.new pm.pageSize pm.file
  PageManager.openFile

/-- The same calls on an array of pages. -/
def pageCall : Call → Fallible Status PageManager Answer
  | .openFile _ => do
    PageManager.openFile
    return .done
  | .allocatePage _ => do
    let id ← PageManager.allocatePage
    return .allocated id
  | .writePage id data => do
    PageManager.writePage id data
    return .done
  | .readPage id => do
    let data ← PageManager.readPage id
    return .contents data
  | .reopen _ => do
    reopenPages
    return .done

def pageStep (pm : PageManager) (c : Call) : Except Status Answer × PageManager := pageCall c pm

section Refinement

variable {path : ByteString} {pageSize : ℕ} {m : FlatPageManager} {array : PageManager}

def new (path : ByteString) (pageSize : ℕ) : FlatPageManager := { filePath := path, pageSize }

/-- The file is still to be created, or it holds the pages of the array. -/
inductive Represents (path : ByteString) (pageSize : ℕ) : FlatPageManager → PageManager → Prop
  | new : Represents path pageSize (new path pageSize) (PageManager.new pageSize none)
  | opened {padding : HeaderPadding} {pages : List ByteString} (h : Fits pageSize pages) :
    Represents path pageSize (opened path padding pageSize pages)
      ⟨pageSize, some ⟨pageSize, pages⟩, true⟩

theorem openFile_new (hpath : path ≠ []) (hpos : 0 < pageSize) (hlt : pageSize < 2 ^ 64)
    (padding : HeaderPadding) :
    openFile padding (new path pageSize) = (.ok (), opened path padding pageSize []) := by
  have hcheck : checkFile pageSize (layout padding pageSize []) = .ok 0 :=
    (Fits.nil hpos hlt).checkFile_layout
  rw [layout, List.flatten_nil, List.append_nil, List.length_nil] at hcheck
  simp [openFile, bind_apply, new, opened, hpath, hpos.ne', hcheck, layout]

/-- Equal results are rewritten to equal answers. -/
theorem Represents.answer {α : Type} {x : Action α} {y : Fallible Status PageManager α}
    {r : Except Status α} {m' : FlatPageManager} {array' : PageManager} (f : α → Answer)
    (hx : x m = (r, m')) (hy : y array = (r, array')) (h : Represents path pageSize m' array') :
    ((x >>= fun a => pure (f a)) m).1 = ((y >>= fun a => pure (f a)) array).1 ∧
      Represents path pageSize ((x >>= fun a => pure (f a)) m).2
        ((y >>= fun a => pure (f a)) array).2 := by
  rw [bind_apply, bind_apply, hx, hy]
  cases r <;> exact ⟨rfl, h⟩

theorem represents_follows (hpath : path ≠ []) (hpos : 0 < pageSize) (hlt : pageSize < 2 ^ 64) :
    Follows (Represents path pageSize) step pageStep := by
  intro m array c hrep
  cases hrep with
  | new =>
    have hopen := openFile_new hpath hpos hlt
    have hnew : PageManager.openFile (PageManager.new pageSize none) =
        (.ok (), ⟨pageSize, some ⟨pageSize, []⟩, true⟩) := by
      simp [PageManager.openFile, PageManager.new, hpos.ne']
    cases c with
    | openFile padding => exact Represents.answer _ (hopen padding) hnew (.opened (.nil hpos hlt))
    | allocatePage padding => exact ⟨rfl, .new⟩
    | writePage id data => exact ⟨rfl, .new⟩
    | readPage id => exact ⟨rfl, .new⟩
    | reopen padding => exact Represents.answer _ (hopen padding) hnew (.opened (.nil hpos hlt))
  | @opened padding pages hfits =>
    cases c with
    | openFile padding' => exact ⟨rfl, .opened hfits⟩
    | allocatePage padding' =>
      have halloc := hfits.allocatePage_opened path padding padding'
      split_ifs at halloc with hlarge
      · refine Represents.answer _ halloc (if_pos hlarge) (.opened hfits)
      · refine Represents.answer _ halloc (if_neg hlarge) (.opened (hfits.append (not_lt.mp hlarge)))
    | writePage id data =>
      have hwrite := hfits.writePage_opened path padding id data
      split_ifs at hwrite with hid hdata
      · exact Represents.answer _ hwrite (if_pos hid) (.opened hfits)
      · exact Represents.answer _ hwrite ((if_neg hid).trans (if_pos hdata)) (.opened hfits)
      · exact Represents.answer _ hwrite ((if_neg hid).trans (if_neg hdata))
          (.opened (hfits.set (not_not.mp hdata)))
    | readPage id =>
      have hread := hfits.readPage_opened path padding id
      refine Represents.answer _ hread ?_ (.opened hfits)
      cases hpage : pages[id]? <;> simp [PageManager.readPage, PageManager.pages, hpage]
    | reopen padding' =>
      refine Represents.answer _ (hfits.reopen_opened hpath padding') ?_ (.opened hfits)
      simp [reopenPages, bind_apply, PageManager.openFile, PageManager.new, hpos.ne']

/-- What each call does to a manager, in terms of the pages it reads. -/
structure ActsAsPages (m : FlatPageManager) : Prop where
  allocate : ∀ padding, m.isOpen = true → (m.file.getD []).length + m.pageSize ≤ maxFileOffset →
    ∃ m', allocatePage padding m = (.ok m.pageCount, m') ∧ m'.pageCount = m.pageCount + 1 ∧
      readPage m.pageCount m' = (.ok (List.replicate m.pageSize 0), m') ∧
      ∀ i < m.pageCount, (readPage i m').1 = (readPage i m).1
  write : ∀ i data, m.isOpen = true → i < m.pageCount → data.length = m.pageSize →
    ∃ m', writePage i data m = (.ok (), m') ∧ m'.pageCount = m.pageCount ∧
      readPage i m' = (.ok data, m') ∧ (∀ j, j ≠ i → (readPage j m').1 = (readPage j m).1) ∧
      m'.file.map (List.take pageFileHeaderSize) = m.file.map (List.take pageFileHeaderSize)
  outOfRange : ∀ i data, m.isOpen = true → m.pageCount ≤ i →
    readPage i m = (.error (outOfRange i m.pageCount), m) ∧
      writePage i data m = (.error (outOfRange i m.pageCount), m)
  wrongSize : ∀ i data, m.isOpen = true → i < m.pageCount → data.length ≠ m.pageSize →
    writePage i data m =
      (.error ⟨.kInvalidArgument, "Page data size does not match page size"⟩, m)
  reopens : ∀ padding, ∃ m', reopen padding m = (.ok (), m') ∧ m'.pageCount = m.pageCount ∧
    (m.isOpen = true → m' = m)

theorem actsAsPages_opened {padding : HeaderPadding} {pages : List ByteString}
    (hfits : Fits pageSize pages) (hpath : path ≠ []) :
    ActsAsPages (opened path padding pageSize pages) where
  allocate padding' _ hroom := by
    have hle : pageFileHeaderSize + (pages.length + 1) * pageSize ≤ maxFileOffset := by
      change (layout padding pageSize pages).length + pageSize ≤ maxFileOffset at hroom
      rw [hfits.length_layout] at hroom
      linarith
    have hafter := hfits.append hle
    refine ⟨_, (hfits.allocatePage_opened path padding padding').trans (if_neg (not_lt.mpr hle)),
      by simp [opened], ?_, fun i hi => ?_⟩
    · have hread := hafter.readPage_opened path padding' pages.length
      rwa [List.getElem?_concat_length] at hread
    · rw [hafter.readPage_opened, hfits.readPage_opened, List.getElem?_append_left hi,
        List.getElem?_eq_getElem hi]
  write i data _ hi hdata := by
    have hi : i < pages.length := hi
    have hdata : data.length = pageSize := hdata
    have hafter : Fits pageSize (pages.set i data) := hfits.set hdata
    have hwrite := hfits.writePage_opened path padding i data
    rw [if_neg (not_le.mpr hi), if_neg (not_not.mpr hdata)] at hwrite
    refine ⟨_, hwrite, by simp [opened], ?_, fun j hj => ?_, ?_⟩
    · have hread := hafter.readPage_opened path padding i
      rwa [List.getElem?_set_self hi] at hread
    · rw [hafter.readPage_opened, hfits.readPage_opened, List.getElem?_set_ne hj.symm,
        List.length_set]
    · simp [opened, layout, List.take_left', headerBytes_length]
  outOfRange i data _ hi := by
    have hi : pages.length ≤ i := hi
    have hread := hfits.readPage_opened path padding i
    rw [List.getElem?_eq_none hi] at hread
    exact ⟨hread, (hfits.writePage_opened path padding i data).trans (if_pos hi)⟩
  wrongSize i data _ hi hdata :=
    (hfits.writePage_opened path padding i data).trans
      ((if_neg (not_le.mpr hi)).trans (if_pos hdata))
  reopens padding' := ⟨_, hfits.reopen_opened hpath padding', rfl, fun _ => rfl⟩

theorem actsAsPages_of_represents (hrep : Represents path pageSize m array) (hpath : path ≠ [])
    (hpos : 0 < pageSize) (hlt : pageSize < 2 ^ 64) : ActsAsPages m := by
  cases hrep with
  | new =>
    refine ⟨nofun, nofun, nofun, nofun, fun padding => ?_⟩
    exact ⟨_, openFile_new hpath hpos hlt padding, rfl, nofun⟩
  | opened hfits => exact actsAsPages_opened hfits hpath

/-- On a new file, every run of calls gets the answers of an array of pages, and leaves a
manager that acts as one. Page sizes are 64-bit values. -/
theorem flatPages_refine_pages (hpath : path ≠ []) (hpos : 0 < pageSize)
    (hlt : pageSize < 2 ^ 64) (calls : List Call) :
    trace step (new path pageSize) calls =
        trace pageStep (PageManager.new pageSize none) calls ∧
      ActsAsPages (finalState step (new path pageSize) calls) := by
  have hfollows := represents_follows hpath hpos hlt
  exact ⟨hfollows.trace calls .new,
    actsAsPages_of_represents (hfollows.finalState calls .new) hpath hpos hlt⟩

/-- Two pages of two bytes, one of them written before the file is closed and opened again. -/
theorem twoPages_answers :
    let padding : HeaderPadding := ⟨[0, 0, 0, 0], rfl⟩
    (trace step (new [104] 2) [.openFile padding, .allocatePage padding,
        .allocatePage padding, .writePage 1 [7, 8], .reopen padding, .readPage 1, .readPage 0,
        .readPage 2]).map Prod.snd =
      [.ok .done, .ok (.allocated 0), .ok (.allocated 1), .ok .done, .ok .done,
        .ok (.contents [7, 8]), .ok (.contents [0, 0]),
        .error (outOfRange 2 2)] := by
  intro padding
  rw [(flatPages_refine_pages (by decide) (by decide) (by decide) _).1]
  simp [trace, pageStep, pageCall, bind_apply, reopenPages, PageManager.openFile,
    PageManager.new, PageManager.allocatePage, PageManager.writePage, PageManager.readPage,
    PageManager.pages, PageManager.setPages, pageFileHeaderSize, maxFileOffset]

end Refinement

end FlatPageManager

end CourseDb

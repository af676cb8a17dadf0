import CourseDb.Common.Value
import CourseDb.Lib.Fallible

/-! # Page files

A page file is a header and a sequence of equally sized pages. The header's
page count always agrees with the file layout, so only its page size is kept.
Reads return the last write; the one way in which the device itself can refuse
an operation is that the file would outgrow the largest file offset.
-/

namespace CourseDb

/-- The content of a page file. Page numbers are `std::uint64_t` values. -/
structure PageFile where
  pageSize : ℕ
  pages : List ByteString

/-- `sizeof(PageFileHeader)`. -/
def pageFileHeaderSize : ℕ := 32

/-- The largest `std::streamoff`. -/
def maxFileOffset : ℕ := 2 ^ 63 - 1

structure PageManager where
  pageSize : ℕ
  /-- The file behind the manager, if it has been created. -/
  file : Option PageFile
  isOpen : Bool

namespace PageManager

/-- A manager that has not been opened yet. -/
def new (pageSize : ℕ) (file : Option PageFile) : PageManager :=
  { pageSize, file, isOpen := false }

def pages (pm : PageManager) : List ByteString :=
  match pm.file with
  | none => []
  | some f => f.pages

def notOpen : Status := ⟨.kInternalError, "Page manager is not open"⟩

def outOfRange (id count : ℕ) : Status :=
  ⟨.kNotFound, "Page " ++ toString id ++ " is out of range, page count is " ++ toString count⟩

def allocationFailed : Status := ⟨.kIoError, "Failed to allocate page"⟩

def openFile : Fallible Status PageManager Unit := fun pm =>
  if pm.isOpen then
    (.ok (), pm)
  else if pm.pageSize = 0 then
    (.error ⟨.kInvalidArgument, "Invalid file path or page size"⟩, pm)
  else
    match pm.file with
    | none => (.ok (), { pm with file := some ⟨pm.pageSize, []⟩, isOpen := true })
    | some f =>
      if f.pageSize ≠ pm.pageSize then
        (.error ⟨.kInvalidArgument, "Page size mismatch: file uses " ++ toString f.pageSize ++
          ", manager was configured with " ++ toString pm.pageSize⟩, pm)
      else
        (.ok (), { pm with isOpen := true })

def readPage (id : ℕ) : Fallible Status PageManager ByteString := fun pm =>
  if !pm.isOpen then
    (.error notOpen, pm)
  else
    match pm.pages[id]? with
    | none => (.error (outOfRange id pm.pages.length), pm)
    | some data => (.ok data, pm)

/-- Replace the pages of an open file. -/
def setPages (pm : PageManager) (pages : List ByteString) : PageManager :=
  { pm with file := some ⟨pm.pageSize, pages⟩ }

def writePage (id : ℕ) (data : ByteString) : Fallible Status PageManager Unit := fun pm =>
  if !pm.isOpen then
    (.error notOpen, pm)
  else if pm.pages.length ≤ id then
    (.error (outOfRange id pm.pages.length), pm)
  else if data.length ≠ pm.pageSize then
    (.error ⟨.kInvalidArgument, "Page data size does not match page size"⟩, pm)
  else
    (.ok (), pm.setPages (pm.pages.set id data))

def allocatePage : Fallible Status PageManager ℕ := fun pm =>
  if !pm.isOpen then
    (.error notOpen, pm)
  else if pageFileHeaderSize + (pm.pages.length + 1) * pm.pageSize > maxFileOffset then
    (.error allocationFailed, pm)
  else
    (.ok pm.pages.length, pm.setPages (pm.pages ++ [List.replicate pm.pageSize 0]))

variable {pm : PageManager} {id : ℕ} {data : ByteString}

section

variable (pm : PageManager) (ps : List ByteString)

@[simp] theorem setPages_pages :
    (pm.setPages ps).pages = ps := rfl

@[simp] theorem setPages_pageSize :
    (pm.setPages ps).pageSize = pm.pageSize := rfl

@[simp] theorem setPages_isOpen :
    (pm.setPages ps).isOpen = pm.isOpen := rfl

end

theorem readPage_some (ho : pm.isOpen = true) (h : pm.pages[id]? = some data) :
    readPage id pm = (.ok data, pm) := by
  simp [readPage, ho, h]

theorem writePage_ok (ho : pm.isOpen = true) (hid : id < pm.pages.length)
    (hsize : data.length = pm.pageSize) :
    writePage id data pm = (.ok (), pm.setPages (pm.pages.set id data)) := by
  simp [writePage, ho, hsize, Nat.not_le.mpr hid]

theorem allocatePage_eq (ho : pm.isOpen = true) :
    allocatePage pm =
      if pageFileHeaderSize + (pm.pages.length + 1) * pm.pageSize ≤ maxFileOffset then
        (.ok pm.pages.length, pm.setPages (pm.pages ++ [List.replicate pm.pageSize 0]))
      else (.error allocationFailed, pm) := by
  rw [allocatePage, ho, if_neg (by simp)]
  by_cases hfits : pageFileHeaderSize + (pm.pages.length + 1) * pm.pageSize ≤ maxFileOffset
  · rw [if_pos hfits, if_neg (not_lt.mpr hfits)]
  · rw [if_neg hfits, if_pos (not_le.mp hfits)]

/-- Another page would end beyond the largest file offset. -/
def Full (pm : PageManager) : Prop :=
  maxFileOffset < pageFileHeaderSize + (pm.pages.length + 1) * pm.pageSize

theorem allocatePage_cases (ho : pm.isOpen = true) :
    (allocatePage pm = (.error allocationFailed, pm) ∧ pm.Full) ∨
      (pageFileHeaderSize + (pm.pages.length + 1) * pm.pageSize ≤ maxFileOffset ∧
        allocatePage pm =
          (.ok pm.pages.length, pm.setPages (pm.pages ++ [List.replicate pm.pageSize 0]))) := by
  rw [allocatePage_eq ho]
  split_ifs with hfits
  · exact .inr ⟨hfits, rfl⟩
  · exact .inl ⟨rfl, not_le.mp hfits⟩

end PageManager

end CourseDb

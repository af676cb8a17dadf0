import CourseDb.Catalog.Schema
import CourseDb.Index.KeyIndex
import CourseDb.Lib.FileSystem
import CourseDb.Versioning.VersionLog

/-! # The files of a storage node

What the files of a node hold, without their bytes: the descriptor of a table,
the rows of a row store, the keys of an index or the records of a version log.
Paths are byte strings, and two different paths are two different files.
-/

namespace CourseDb

inductive FileContent where
  | metadata (desc : TableDescriptor)
  | table (heap : Heap)
  | index (index : KeyIndex)
  | versionLog (records : List VersionRecord)
  /-- A page file with nothing but a zeroed first page. -/
  | blank (pageSize : ℕ)

/-- What a file holds when it has just been created, unless it is a descriptor. -/
def FileContent.IsNew : FileContent → Prop
  | .metadata _ => False
  | .table heap => heap = Heap.empty heap.pageSize
  | .index x => x = KeyIndex.empty x.cfg
  | .versionLog records => records = []
  | .blank _ => True

abbrev Disk := FileSystem Byte FileContent

namespace Disk

variable {α : Type} {d d' : Disk} {file : ℕ} {h : Heap}

abbrev Action (α : Type) := Fallible Status Disk α

def separator : Byte := 47

def ensureDir (path : ByteString) : Action Unit := Fallible.modify (FileSystem.ensureDir separator path)

/-- The part of a path before its last separator. -/
def parent (path : ByteString) : ByteString :=
  ((path.reverse.dropWhile (· ≠ separator)).drop 1).reverse

/-- The rows of a table that are not deleted, in the order of a scan. -/
def liveRowsIn : Option FileContent → List Row
  | some (.table heap) => Heap.live heap.rows
  | _ => []

def keysIn : Option FileContent → BStarTree.KeyMap
  | some (.index index) => index.keys
  | _ => fun _ => none

def recordsIn : Option FileContent → List VersionRecord
  | some (.versionLog records) => records
  | _ => []

def liveRows (d : Disk) (file : ℕ) : List Row := liveRowsIn (d.files file)

def keys (d : Disk) (file : ℕ) : BStarTree.KeyMap := keysIn (d.files file)

def records (d : Disk) (file : ℕ) : List VersionRecord := recordsIn (d.files file)

theorem keys_write_table (hfile : d.files file = some (.table h)) (h' : Heap) (i : ℕ) :
    keys (d.write file (.table h')) i = keys d i := by
  apply FileSystem.write_view keysIn hfile
  rfl

theorem records_write_table (hfile : d.files file = some (.table h)) (h' : Heap) (i : ℕ) :
    records (d.write file (.table h')) i = records d i := by
  apply FileSystem.write_view recordsIn hfile
  rfl

theorem liveRows_write_index {x : KeyIndex} (hfile : d.files file = some (.index x)) (x' : KeyIndex)
    (i : ℕ) : liveRows (d.write file (.index x')) i = liveRows d i := by
  apply FileSystem.write_view liveRowsIn hfile
  rfl

/-- Every table has the rows and every index the keys that it had. -/
structure SameContents (d d' : Disk) : Prop where
  liveRows : ∀ file, d'.liveRows file = d.liveRows file
  keys : ∀ file, d'.keys file = d.keys file
  /-- The pages of a table may have been stored anew. -/
  tables : ∀ {file h}, d.files file = some (.table h) →
    ∃ h', d'.files file = some (.table h') ∧ h'.rows = h.rows ∧ h'.pageSize = h.pageSize
  paths : ∀ {p i}, d.paths p = some i → d'.paths p = some i

namespace SameContents

protected theorem rfl : d.SameContents d :=
  ⟨fun _ => rfl, fun _ => rfl, fun h => ⟨_, h, rfl, rfl⟩, id⟩

protected theorem trans {d'' : Disk} (h : d.SameContents d') (h' : d'.SameContents d'') :
    d.SameContents d'' where
  liveRows i := (h'.liveRows i).trans (h.liveRows i)
  keys i := (h'.keys i).trans (h.keys i)
  tables ht := by
    obtain ⟨h₁, hfile₁, hrows₁, hsize₁⟩ := h.tables ht
    obtain ⟨h₂, hfile₂, hrows₂, hsize₂⟩ := h'.tables hfile₁
    exact ⟨h₂, hfile₂, hrows₂.trans hrows₁, hsize₂.trans hsize₁⟩
  paths hp := h'.paths (h.paths hp)

theorem writeTable {h' : Heap} (hfile : d.files file = some (.table h)) (hrows : h'.rows = h.rows)
    (hsize : h'.pageSize = h.pageSize) : d.SameContents (d.write file (.table h')) where
  liveRows := FileSystem.write_view liveRowsIn hfile (by simp only [liveRowsIn, hrows])
  keys := keys_write_table hfile h'
  tables {i k} hi := by
    by_cases hne : i = file
    · subst hne
      rw [hfile] at hi
      cases hi
      exact ⟨h', FileSystem.write_file_self hfile, hrows, hsize⟩
    · exact ⟨k, by rw [FileSystem.write_file_of_ne hne, hi], rfl, rfl⟩
  paths := id

theorem writeVersionLog {records records' : List VersionRecord}
    (hfile : d.files file = some (.versionLog records)) :
    d.SameContents (d.write file (.versionLog records')) where
  liveRows := FileSystem.write_view liveRowsIn hfile rfl
  keys := FileSystem.write_view keysIn hfile rfl
  tables {i k} hi := by
    have hne : i ≠ file := by
      rintro rfl
      rw [hfile] at hi
      cases hi
    exact ⟨k, by rw [FileSystem.write_file_of_ne hne, hi], rfl, rfl⟩
  paths := id

end SameContents

/-- `d'` is `d` with new files added. -/
structure Extends (d d' : Disk) : Prop where
  files : ∀ {i c}, d.files i = some c → d'.files i = some c
  fresh : ∀ {i c}, d.files i = none → d'.files i = some c → c.IsNew
  paths : ∀ {p i}, d.paths p = some i → d'.paths p = some i

namespace Extends

protected theorem rfl : d.Extends d where
  files h := h
  fresh h h' := by
    rw [h] at h'
    cases h'
  paths h := h

protected theorem trans {d'' : Disk} (h : d.Extends d') (h' : d'.Extends d'') :
    d.Extends d'' where
  files hi := h'.files (h.files hi)
  fresh {i c} hi hc := by
    rcases hi' : d'.files i with _ | c'
    · exact h'.fresh hi' hc
    · rw [h'.files hi'] at hc
      cases hc
      exact h.fresh hi hi'
  paths hp := h'.paths (h.paths hp)

theorem ensureDir (path : ByteString) (d : Disk) :
    d.Extends (FileSystem.ensureDir separator path d) :=
  ⟨id, (Extends.rfl (d := d)).fresh, id⟩

theorem create {path : ByteString} {content : FileContent} (hpath : d.paths path = none)
    (hnew : content.IsNew) : d.Extends (d.create path content) where
  files h := FileSystem.create_file_of_some h
  fresh {i c} h hc := by
    by_cases hi : i = d.nextFile
    · subst hi
      rw [FileSystem.create_file_self] at hc
      cases hc
      exact hnew
    · rw [FileSystem.create_file_of_ne hi, h] at hc
      cases hc
  paths {p i} h := by
    have hp : p ≠ path := by
      rintro rfl
      rw [hpath] at h
      cases h
    rw [FileSystem.create_path_of_ne hp, h]

/-- What does not tell a new file from a missing one sees no difference. -/
theorem view_eq {β : Type} (h : d.Extends d') (view : Option FileContent → β)
    (hview : ∀ c : FileContent, c.IsNew → view (some c) = view none) (i : ℕ) :
    view (d'.files i) = view (d.files i) := by
  rcases hi : d.files i with _ | c
  · rcases hi' : d'.files i with _ | c
    · rfl
    · exact hview c (h.fresh hi hi')
  · rw [h.files hi]

theorem sameContents (h : d.Extends d') : d.SameContents d' where
  liveRows := h.view_eq liveRowsIn fun c hnew => by
    cases c with
    | table heap =>
      rw [hnew]
      rfl
    | _ => rfl
  keys := h.view_eq keysIn fun c hnew => by
    cases c with
    | index x =>
      rw [hnew]
      rfl
    | _ => rfl
  tables hfile := ⟨_, h.files hfile, rfl, rfl⟩
  paths := h.paths

theorem records_eq (h : d.Extends d') (i : ℕ) : d'.records i = d.records i :=
  h.view_eq recordsIn (fun c hnew => by cases c with
    | versionLog records => exact hnew
    | _ => rfl) i

end Extends

end Disk

end CourseDb

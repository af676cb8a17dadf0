import Mathlib.Tactic

/-! # A file system with open files

A path leads to a numbered file, and the content is kept with the number. Whoever
has opened a file keeps its number, so that a removed file can still be read
and written by those who have it open. No two paths lead to the same file.
-/

namespace CourseDb

open Function (update update_self update_of_ne)

/-- Paths are strings over `χ`, contents are of type `κ`. -/
structure FileSystem (χ κ : Type) where
  /-- The directories, by their paths. -/
  isDir : List χ → Bool
  paths : List χ → Option ℕ
  files : ℕ → Option κ
  /-- The number of the next file to be created. -/
  nextFile : ℕ
  numbered : ∀ {p i}, paths p = some i → i < nextFile
  injective : ∀ {p q i}, paths p = some i → paths q = some i → p = q
  unused : ∀ {i}, nextFile ≤ i → files i = none

namespace FileSystem

variable {χ κ : Type}

def empty : FileSystem χ κ where
  isDir _ := false
  paths _ := none
  files _ := none
  nextFile := 0
  numbered h := by cases h
  injective h := by cases h
  unused _ := rfl

def hasPath (path : List χ) (fs : FileSystem χ κ) : Bool := (fs.paths path).isSome

def content (fs : FileSystem χ κ) (path : List χ) : Option κ := fs.paths path >>= fs.files

def write (i : ℕ) (c : κ) (fs : FileSystem χ κ) : FileSystem χ κ :=
  { fs with
    files := update fs.files i ((fs.files i).map fun _ => c)
    unused := by
      intro j hj
      by_cases hij : j = i
      · subst hij
        rw [update_self, fs.unused hj, Option.map_none]
      · rw [update_of_ne hij, fs.unused hj] }

/-- Remove the paths that `gone` selects; the files stay with those who have them open. -/
def unlink (gone : List χ → Bool) (fs : FileSystem χ κ) : FileSystem χ κ where
  isDir := fs.isDir
  paths p := if gone p then none else fs.paths p
  files := fs.files
  nextFile := fs.nextFile
  numbered h := by
    split_ifs at h
    exact fs.numbered h
  injective hp hq := by
    split_ifs at hp hq
    exact fs.injective hp hq
  unused := fs.unused

section Written

variable {fs : FileSystem χ κ} {i j : ℕ} {c c' : κ}

theorem lt_of_file (h : fs.files i = some c) : i < fs.nextFile := by
  by_contra hle
  rw [fs.unused (Nat.le_of_not_lt hle)] at h
  cases h

theorem write_file_self (h : fs.files i = some c) : (fs.write i c').files i = some c' := by
  simp [write, h]

theorem write_file_of_ne (h : j ≠ i) : (fs.write i c).files j = fs.files j := by
  simp [write, h]

/-- What does not tell the contents apart sees no difference after a write. -/
theorem write_view {β : Type} (view : Option κ → β) (h : fs.files i = some c)
    (hview : view (some c') = view (some c)) (j : ℕ) :
    view ((fs.write i c').files j) = view (fs.files j) := by
  by_cases hj : j = i
  · rw [hj, write_file_self h, h, hview]
  · rw [write_file_of_ne hj]

theorem write_self (h : fs.files i = some c) : fs.write i c = fs := by
  have hfiles : (fs.write i c).files = fs.files := by
    funext j
    by_cases hj : j = i
    · rw [hj, write_file_self h, h]
    · rw [write_file_of_ne hj]
  cases fs
  simp only [write] at hfiles ⊢
  simp only [hfiles]

end Written

variable [DecidableEq χ]

/-- `path` is `dir` or lies below it, where `sep` separates the parts of a path. -/
def within (sep : χ) (dir path : List χ) : Bool := path = dir || (dir ++ [sep]).isPrefixOf path

theorem within_iff {sep : χ} {dir path : List χ} :
    within sep dir path = true ↔ dir ++ [sep] <+: path ++ [sep] := by
  rw [List.prefix_concat_iff, List.append_left_inj, within, Bool.or_eq_true, decide_eq_true_eq,
    List.isPrefixOf_iff_prefix, eq_comm]

/-- Make a directory, and the directories above it. -/
def ensureDir (sep : χ) (path : List χ) (fs : FileSystem χ κ) : FileSystem χ κ :=
  { fs with isDir := fun dir => fs.isDir dir || within sep dir path }

/-- A new file under a path; it gets the number `nextFile`. -/
def create (path : List χ) (c : κ) (fs : FileSystem χ κ) : FileSystem χ κ where
  isDir := fs.isDir
  paths := update fs.paths path (some fs.nextFile)
  files := update fs.files fs.nextFile (some c)
  nextFile := fs.nextFile + 1
  numbered {p i} h := by
    by_cases hp : p = path
    · subst hp
      rw [update_self] at h
      cases h
      exact Nat.lt_succ_self _
    · rw [update_of_ne hp] at h
      exact (fs.numbered h).trans (Nat.lt_succ_self _)
  injective {p q i} hp hq := by
    by_cases hp' : p = path <;> by_cases hq' : q = path
    · rw [hp', hq']
    · subst hp'
      rw [update_self] at hp
      rw [update_of_ne hq'] at hq
      cases hp
      exact absurd (fs.numbered hq) (Nat.lt_irrefl _)
    · subst hq'
      rw [update_self] at hq
      rw [update_of_ne hp'] at hp
      cases hq
      exact absurd (fs.numbered hp) (Nat.lt_irrefl _)
    · rw [update_of_ne hp'] at hp
      rw [update_of_ne hq'] at hq
      exact fs.injective hp hq
  unused {i} h := by
    rw [update_of_ne (by omega), fs.unused (by omega)]

def remove (path : List χ) (fs : FileSystem χ κ) : FileSystem χ κ := fs.unlink (· = path)

def removeAll (sep : χ) (dir : List χ) (fs : FileSystem χ κ) : FileSystem χ κ :=
  { fs.unlink (within sep dir) with isDir := fun d => fs.isDir d && !within sep dir d }

section Files

variable {fs : FileSystem χ κ} {p q : List χ} {i : ℕ} {c c' : κ}

theorem create_file_self : (fs.create p c).files fs.nextFile = some c := by
  simp [create]

theorem create_file_of_ne (h : i ≠ fs.nextFile) : (fs.create p c).files i = fs.files i := by
  simp [create, h]

theorem create_file_of_some (h : fs.files i = some c') : (fs.create p c).files i = some c' := by
  rw [create_file_of_ne (lt_of_file h).ne, h]

theorem create_path_self : (fs.create p c).paths p = some fs.nextFile := by
  simp [create]

theorem create_path_of_ne (h : q ≠ p) : (fs.create p c).paths q = fs.paths q := by
  simp [create, h]

theorem create_content_self : (fs.create p c).content p = some c := by
  rw [content, create_path_self]
  exact create_file_self (p := p)

theorem create_content_of_ne (h : q ≠ p) : (fs.create p c).content q = fs.content q := by
  rw [content, content, create_path_of_ne h]
  rcases hq : fs.paths q with _ | i
  · rfl
  · exact create_file_of_ne (p := p) (fs.numbered hq).ne

end Files

end FileSystem

end CourseDb

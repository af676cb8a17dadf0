import CourseDb.Catalog.CatalogManager
import CourseDb.Catalog.CatalogSerialization
import Mathlib.Data.List.AList

/-! # The catalog over the bytes of its files

The calls of the catalog on directories and on files that hold bytes. Seen
from outside, the catalog is a map from names to descriptors: the path of a
descriptor determines the names, and its bytes determine the descriptor.
-/

namespace CourseDb

open Fallible (read_bind bind_ok bind_eq_ok ofExcept_apply modify_apply fail ofExcept
  Within Tracks)
open Codec CatalogManager
open FileSystem (within)
open Disk (separator parent)

/-- Directories, and files with their bytes. Two paths are two files. -/
structure CatalogFiles where
  isDir : ByteString → Bool := fun _ => false
  files : AList fun _ : ByteString => ByteString := ∅

/-- The order in which a directory iterator meets the entries. -/
structure Listing where
  order : List ByteString → List ByteString
  perm : ∀ entries, (order entries).Perm entries

namespace CatalogFiles

variable {e : Status} {s' : CatalogFiles} {dir path : ByteString}

abbrev Action (α : Type) := Fallible Status CatalogFiles α

section Calls

variable (rootDir : ByteString)

def ensureDir (path : ByteString) : Action Unit :=
  Fallible.modify fun s =>
    { s with isDir := fun dir => s.isDir dir || within separator dir path }

/-- A file is only written in a directory that exists. -/
def writeAllBytes (path bytes : ByteString) : Action Unit := do
  let s ← Fallible.read
  if s.isDir (parent path) then
    Fallible.modify fun s => { s with files := s.files.insert path bytes }
  else
    fail cannotOpen

def readAllBytes (path : ByteString) (s : CatalogFiles) : Except Status ByteString :=
  match s.files.lookup path with
  | none => .error cannotOpen
  | some bytes => .ok bytes

def writeTableMetaFile (path : ByteString) (desc : TableDescriptor) : Action Unit :=
  writeAllBytes path (serializeTableDescriptor desc)

def readTableMetaFile (path : ByteString) (s : CatalogFiles) : Except Status TableDescriptor := do
  let bytes ← readAllBytes path s
  let (desc, offset) ← deserializeTableDescriptor bytes 0
  if offset ≠ bytes.length then
    invalid "Corrupted metadata: trailing bytes after table descriptor"
  else
    validateTableDescriptor desc
    return desc

/-- `std::filesystem::remove_all`. -/
def removeAll (path : ByteString) : Action Unit :=
  Fallible.modify fun s =>
    { isDir := fun dir => s.isDir dir && !within separator path dir
      files := (s.files.keys.filter (within separator path)).foldr AList.erase
        s.files }

instance instCatalogStore : CatalogStore CatalogFiles where
  isDir path s := s.isDir path
  ensureDir := ensureDir
  removeAll := removeAll
  hasPath path s := (s.files.lookup path).isSome
  remove path := Fallible.modify fun s => { s with files := s.files.erase path }
  writeTableMetaFile := writeTableMetaFile
  readTableMetaFile := readTableMetaFile

theorem databaseExists_eq (db : ByteString) (s : CatalogFiles) :
    databaseExists rootDir db s = s.isDir (databasePath rootDir db) := rfl

/-- The part of a path behind its last separator. -/
def fileName (path : ByteString) : ByteString :=
  (path.reverse.takeWhile (· ≠ separator)).reverse

/-- `std::filesystem::path::extension` of a file name: from its last dot, unless
that is the first character or the name is `..`. -/
def extension (name : ByteString) : ByteString :=
  let stem := ((name.reverse.dropWhile (· ≠ 46)).drop 1).reverse
  if stem.isEmpty || name = ascii ".." then []
  else 46 :: (name.reverse.takeWhile (· ≠ 46)).reverse

/-- The loop of `ListTables`. -/
def readMetaFiles (s : CatalogFiles) : List ByteString → Except Status (List TableDescriptor)
  | [] => .ok []
  | path :: paths => do
    let desc ← readTableMetaFile path s
    let descs ← readMetaFiles s paths
    return desc :: descs

def sortByName (tables : List TableDescriptor) : List TableDescriptor :=
  tables.mergeSort fun lhs rhs => lhs.tableName ≤ rhs.tableName

def listTables (listing : Listing) (dbName : ByteString) (s : CatalogFiles) :
    Except Status (List TableDescriptor) := do
  validateDatabaseName dbName
  if !databaseExists rootDir dbName s then
    .error databaseNotFound
  else if !s.isDir (catalogDirPath rootDir dbName) then
    .error ⟨.kNotFound, "Catalog directory not found"⟩
  else
    let entries := listing.order
      (s.files.keys.filter fun path => parent path = catalogDirPath rootDir dbName)
    let tables ← readMetaFiles s
      (entries.filter fun path => extension (fileName path) = ascii ".meta")
    return sortByName tables

end Calls

section Paths

variable {name : ByteString}

theorem path_eq (dir name : ByteString) : dir ++ ascii "/" ++ name = dir ++ separator :: name := by
  have hsep : ascii "/" = [separator] := by decide
  simp [hsep]

theorem parent_append (h : separator ∉ name) :
    parent (dir ++ ascii "/" ++ name) = dir := by
  rw [path_eq, parent, (split_at_last _ h).1]
  simp

theorem fileName_append (h : separator ∉ name) :
    fileName (dir ++ ascii "/" ++ name) = name := by
  rw [path_eq, fileName, (split_at_last _ h).2, List.reverse_reverse]

theorem isValidNameFrom_separator {hasNonSpace prevDot : Bool}
    (h : isValidNameFrom hasNonSpace prevDot name = true) : separator ∉ name := by
  induction name generalizing hasNonSpace prevDot with
  | nil => simp
  | cons b name ih =>
    unfold isValidNameFrom at h
    split_ifs at h with hslash hdot
    simp only [Bool.or_eq_true, decide_eq_true_eq, not_or] at hslash
    rw [List.mem_cons, not_or]
    exact ⟨fun hb => hslash.1 hb.symm, ih h⟩

theorem isValidName_separator (h : isValidName name = true) : separator ∉ name :=
  isValidNameFrom_separator h

variable {rootDir db db' t t' : ByteString}

theorem tableMetaPath_eq :
    tableMetaPath rootDir db t = catalogDirPath rootDir db ++ ascii "/" ++ (t ++ ascii ".meta") :=
  List.append_assoc _ _ _

theorem separator_not_mem_meta (h : separator ∉ t) : separator ∉ t ++ ascii ".meta" := by
  have hmeta : separator ∉ ascii ".meta" := by decide
  simp [h, hmeta]

theorem parent_tableMetaPath (h : separator ∉ t) :
    parent (tableMetaPath rootDir db t) = catalogDirPath rootDir db := by
  rw [tableMetaPath_eq, parent_append (separator_not_mem_meta h)]

theorem extension_meta (h : t ≠ []) : extension (t ++ ascii ".meta") = ascii ".meta" := by
  have hmeta : ascii ".meta" = 46 :: ascii "meta" := by decide
  have hdot : (46 : Byte) ∉ ascii "meta" := by decide
  have hdots : t ++ 46 :: ascii "meta" ≠ ascii ".." := by
    intro heq
    have hlen := congrArg List.length heq
    rw [List.length_append, show (46 :: ascii "meta").length = 5 by decide,
      show (ascii "..").length = 2 by decide] at hlen
    omega
  rw [hmeta, extension, (split_at_last _ hdot).1, (split_at_last _ hdot).2]
  simp [h, hdots]

theorem extension_tableMetaPath (h : isValidName t = true) :
    extension (fileName (tableMetaPath rootDir db t)) = ascii ".meta" := by
  rw [tableMetaPath_eq, fileName_append (separator_not_mem_meta (isValidName_separator h)),
    extension_meta (isValidName_ne_nil h)]

/-- The path of a descriptor determines the database and the table. -/
theorem tableMetaPath_injective (h : separator ∉ t) (h' : separator ∉ t')
    (heq : tableMetaPath rootDir db t = tableMetaPath rootDir db' t') : db = db' ∧ t = t' := by
  have hdir : catalogDirPath rootDir db = catalogDirPath rootDir db' := by
    rw [← parent_tableMetaPath h, heq, parent_tableMetaPath h']
  have hdb : db = db' := by simpa [catalogDirPath, databasePath] using hdir
  subst hdb
  exact ⟨rfl, by simpa [tableMetaPath] using heq⟩

end Paths

section CallCases

variable {rootDir db tbl metaPath : ByteString} {table : TableDescriptor}
  {s : CatalogFiles}

def withTable (rootDir : ByteString) (table : TableDescriptor) (s : CatalogFiles) : CatalogFiles :=
  { s with
    files := s.files.insert (tableMetaPath rootDir table.databaseName table.tableName)
      (serializeTableDescriptor table) }

theorem createTable_cases (rootDir : ByteString) (table : TableDescriptor) (s : CatalogFiles) :
    (∃ e, createTable rootDir table s = (.error e, s)) ∨
      Admits rootDir table s ∧ createTable rootDir table s =
        (.ok (), s.withTable rootDir (normalizeTableDescriptor rootDir table)) := by
  by_cases h : Admits rootDir table s
  · rw [createTable_of_admits h]
    by_cases hdir : s.isDir (parent
        (tableMetaPath rootDir table.databaseName table.tableName)) = true
    · exact .inr ⟨h, congrFun (if_pos hdir) s⟩
    · exact .inl ⟨_, congrFun (if_neg hdir) s⟩
  · exact .inl (createTable_of_not_admits h)

theorem readTableMetaFile_of_corrupt {bytes : ByteString} (h : readAllBytes path s = .ok bytes)
    (hbytes : deserializeTableDescriptor bytes 0 = .error e) :
    readTableMetaFile path s = .error e := by
  simp [readTableMetaFile, h, hbytes, bind, Except.bind]

/-- The directories are kept and the files are not touched. -/
structure Grows (s s' : CatalogFiles) : Prop where
  isDir : ∀ dir, s.isDir dir = true → s'.isDir dir = true
  files : s'.files = s.files

instance : Std.Refl Grows := ⟨fun _ => ⟨fun _ => id, rfl⟩⟩

instance : IsTrans CatalogFiles Grows :=
  ⟨fun _ _ _ h h' => ⟨fun dir hd => h'.isDir dir (h.isDir dir hd), h'.files.trans h.files⟩⟩

theorem ensureDir_grows (path : ByteString) : Within Grows (ensureDir path) := by
  intro s
  exact ⟨fun dir hd => by simp [ensureDir, hd], rfl⟩

theorem createDatabase_ok (h : createDatabase rootDir db s = (.ok (), s')) :
    validateDatabaseName db = .ok () ∧ databaseExists rootDir db s' = true ∧
      s'.isDir (catalogDirPath rootDir db) = true := by
  unfold createDatabase at h
  obtain ⟨⟨⟩, s₁, hname, h⟩ := bind_eq_ok.mp h
  obtain ⟨⟨⟩, s₂, hroot, h⟩ := bind_eq_ok.mp h
  obtain ⟨s₃, s₄, hread, h⟩ := bind_eq_ok.mp h
  have hvalid : validateDatabaseName db = .ok () := congrArg Prod.fst hname
  split_ifs at h with hexists
  · cases h
  · have hs' := congrArg Prod.snd h
    simp only [bind, DirStore.ensureDir, ensureDir, modify_apply] at hs'
    subst hs'
    exact ⟨hvalid, by simp [databaseExists, DirStore.isDir, within],
      by simp [within]⟩

end CallCases

section Refinement

/-- What the catalog is for: a descriptor for some of the names. -/
abbrev TableMap := ByteString → ByteString → Option TableDescriptor

/-- A descriptor that the catalog has accepted under these names. -/
structure Accepted (db t : ByteString) (desc : TableDescriptor) : Prop where
  databaseName : desc.databaseName = db
  tableName : desc.tableName = t
  valid : validateTableDescriptor desc = .ok ()
  short : desc.Short

namespace Accepted

variable {db t : ByteString} {desc : TableDescriptor}

theorem database_valid (h : Accepted db t desc) : validateDatabaseName db = .ok () :=
  h.databaseName ▸ (names_of_validateTableDescriptor h.valid).1

theorem table_valid (h : Accepted db t desc) : validateTableName t = .ok () :=
  h.tableName ▸ (names_of_validateTableDescriptor h.valid).2

theorem separator_not_mem (h : Accepted db t desc) : separator ∉ t :=
  isValidName_separator (isValidName_of_tableName h.table_valid)

end Accepted

/-- The files hold the descriptors of the map and nothing else. -/
structure Holds (rootDir : ByteString) (created : ByteString → Prop) (m : TableMap)
    (s : CatalogFiles) : Prop where
  files : ∀ p bytes, s.files.lookup p = some bytes ↔
    ∃ db t desc, m db t = some desc ∧ p = tableMetaPath rootDir db t ∧
      bytes = serializeTableDescriptor desc
  accepted : ∀ {db t desc}, m db t = some desc → Accepted db t desc
  database : ∀ {db t desc}, m db t = some desc → databaseExists rootDir db s = true
  created : ∀ {db}, created db → validateDatabaseName db = .ok () ∧
    databaseExists rootDir db s = true ∧ s.isDir (catalogDirPath rootDir db) = true

variable {rootDir : ByteString} {created : ByteString → Prop} {m : TableMap} {s : CatalogFiles}
  {db t : ByteString} {desc : TableDescriptor}

theorem Holds.lookup (h : Holds rootDir created m s) (hm : m db t = some desc) :
    s.files.lookup (tableMetaPath rootDir db t) = some (serializeTableDescriptor desc) :=
  (h.files _ _).mpr ⟨db, t, desc, hm, rfl, rfl⟩

theorem Holds.lookup_none (h : Holds rootDir created m s) (hm : m db t = none)
    (ht : separator ∉ t) : s.files.lookup (tableMetaPath rootDir db t) = none := by
  by_contra hsome
  obtain ⟨bytes, hbytes⟩ := Option.ne_none_iff_exists'.mp hsome
  obtain ⟨db', t', desc, hm', hp, -⟩ := (h.files _ _).mp hbytes
  obtain ⟨rfl, rfl⟩ := tableMetaPath_injective ht (h.accepted hm').separator_not_mem hp
  rw [hm] at hm'
  cases hm'

theorem readTableMetaFile_of_lookup (haccepted : Accepted db t desc)
    (h : s.files.lookup path = some (serializeTableDescriptor desc)) :
    readTableMetaFile path s = .ok desc := by
  simp [readTableMetaFile, readAllBytes, h, haccepted.short.decodes.whole, haccepted.valid, bind,
    Except.bind, pure, Except.pure]

theorem Holds.getTable_eq (h : Holds rootDir created m s) (hm : m db t = some desc) :
    getTable rootDir db t s = .ok desc := by
  have haccepted := h.accepted hm
  have hlookup := h.lookup hm
  exact getTable_ok.mpr ⟨findTableMeta_ok.mpr ⟨haccepted.database_valid, haccepted.table_valid,
    h.database hm, Option.isSome_of_eq_some hlookup, rfl⟩,
    readTableMetaFile_of_lookup haccepted hlookup⟩

theorem Holds.getTable_error (h : Holds rootDir created m s) (hm : m db t = none) :
    ∃ e, getTable rootDir db t s = .error e := by
  rcases hget : getTable rootDir db t s with e | desc
  · exact ⟨e, rfl⟩
  · obtain ⟨-, ht, -, hpath, -⟩ := findTableMeta_ok.mp (getTable_ok.mp hget).1
    have hnone := h.lookup_none hm (isValidName_separator (isValidName_of_tableName ht))
    change (s.files.lookup _).isSome = true at hpath
    rw [hnone] at hpath
    cases hpath

/-- The descriptors of one database, each read from the path of its name. -/
theorem readMetaFiles_eq {paths : List ByteString}
    (h : ∀ p ∈ paths, ∃ desc : TableDescriptor, readTableMetaFile p s = .ok desc ∧
      m db desc.tableName = some desc ∧ p = tableMetaPath rootDir db desc.tableName) :
    ∃ tables, readMetaFiles s paths = .ok tables ∧
      paths = tables.map (fun desc => tableMetaPath rootDir db desc.tableName) ∧
      ∀ desc ∈ tables, m db desc.tableName = some desc := by
  induction paths with
  | nil => exact ⟨[], rfl, rfl, by simp⟩
  | cons p paths ih =>
    obtain ⟨hhead, htail⟩ := List.forall_mem_cons.mp h
    obtain ⟨desc, hread, hm, hp⟩ := hhead
    obtain ⟨tables, hreads, hpaths, htables⟩ := ih htail
    refine ⟨desc :: tables, ?_, ?_, ?_⟩
    · simp [readMetaFiles, hread, hreads, bind, Except.bind, pure, Except.pure]
    · rw [List.map_cons, ← hp, ← hpaths]
    · exact List.forall_mem_cons.mpr ⟨hm, htables⟩

theorem sortByName_pairwise {tables : List TableDescriptor}
    (h : (tables.map TableDescriptor.tableName).Nodup) :
    (sortByName tables).Pairwise fun a b => a.tableName < b.tableName := by
  have hperm : (sortByName tables).Perm tables := List.mergeSort_perm _ _
  have hle : (sortByName tables).Pairwise fun a b =>
      decide (a.tableName ≤ b.tableName) = true := by
    refine List.pairwise_mergeSort ?_ ?_ tables
    · intro a b c hab hbc
      rw [decide_eq_true_eq] at hab hbc ⊢
      exact hab.trans hbc
    · intro a b
      simpa using le_total a.tableName b.tableName
  have hne : (sortByName tables).Pairwise fun a b => a.tableName ≠ b.tableName :=
    List.pairwise_map.mp ((hperm.map TableDescriptor.tableName).nodup_iff.mpr h)
  refine (hle.and hne).imp fun {a b} hab => ?_
  exact lt_of_le_of_ne (of_decide_eq_true hab.1) hab.2

/-- The paths that `ListTables` reads are those of the tables of the database. -/
theorem Holds.mem_metaFiles (h : Holds rootDir created m s) (listing : Listing) {p : ByteString} :
    p ∈ (listing.order (s.files.keys.filter fun path =>
        parent path = catalogDirPath rootDir db)).filter
          (fun path => extension (fileName path) = ascii ".meta") ↔
      ∃ t desc, m db t = some desc ∧ p = tableMetaPath rootDir db t := by
  rw [List.mem_filter, (listing.perm _).mem_iff, List.mem_filter, ← AList.mem_keys,
    ← AList.lookup_isSome, Option.isSome_iff_exists]
  simp only [decide_eq_true_eq]
  constructor
  · rintro ⟨⟨⟨bytes, hlookup⟩, hparent⟩, -⟩
    obtain ⟨db', t, desc, hm, rfl, -⟩ := (h.files _ _).mp hlookup
    rw [parent_tableMetaPath (h.accepted hm).separator_not_mem] at hparent
    obtain rfl : db' = db := by simpa [catalogDirPath, databasePath] using hparent
    exact ⟨t, desc, hm, rfl⟩
  · rintro ⟨t, desc, hm, rfl⟩
    have haccepted := h.accepted hm
    exact ⟨⟨⟨_, h.lookup hm⟩, parent_tableMetaPath haccepted.separator_not_mem⟩,
      extension_tableMetaPath (isValidName_of_tableName haccepted.table_valid)⟩

theorem Holds.listTables_eq (h : Holds rootDir created m s) (hdb : created db)
    (listing : Listing) :
    ∃ tables, listTables rootDir listing db s = .ok tables ∧
      tables.Pairwise (fun a b => a.tableName < b.tableName) ∧
      ∀ desc, desc ∈ tables ↔ m db desc.tableName = some desc := by
  obtain ⟨hvalid, hdatabase, hcatalog⟩ := h.created hdb
  have hfiles : ∀ p ∈ (listing.order (s.files.keys.filter fun path =>
      parent path = catalogDirPath rootDir db)).filter
        (fun path => extension (fileName path) = ascii ".meta"),
      ∃ desc : TableDescriptor, readTableMetaFile p s = .ok desc ∧
        m db desc.tableName = some desc ∧ p = tableMetaPath rootDir db desc.tableName := by
    intro p hp
    obtain ⟨t, desc, hm, rfl⟩ := (h.mem_metaFiles listing).mp hp
    obtain rfl := (h.accepted hm).tableName
    exact ⟨desc, readTableMetaFile_of_lookup (h.accepted hm) (h.lookup hm), hm, rfl⟩
  obtain ⟨tables, hread, hpaths, htables⟩ := readMetaFiles_eq hfiles
  have hnodup : (tables.map TableDescriptor.tableName).Nodup := by
    have hkeys := ((listing.perm _).nodup_iff.mpr
      (s.files.keys_nodup.filter fun path => parent path = catalogDirPath rootDir db)).filter
        (fun path => decide (extension (fileName path) = ascii ".meta"))
    rw [hpaths, ← Function.comp_def, ← List.map_map] at hkeys
    exact hkeys.of_map _
  refine ⟨sortByName tables, ?_, sortByName_pairwise hnodup, fun desc => ?_⟩
  · simp [listTables, hvalid, hdatabase, hcatalog, hread, bind, Except.bind, pure, Except.pure]
  · rw [sortByName, (List.mergeSort_perm _ _).mem_iff]
    refine ⟨htables desc, fun hm => ?_⟩
    have hpath := (h.mem_metaFiles listing).mpr ⟨_, desc, hm, rfl⟩
    rw [hpaths] at hpath
    obtain ⟨desc', hmem, hp⟩ := List.mem_map.mp hpath
    obtain ⟨-, hname⟩ := tableMetaPath_injective
      (h.accepted (htables desc' hmem)).separator_not_mem (h.accepted hm).separator_not_mem hp
    have hm' := htables desc' hmem
    rw [hname, hm] at hm'
    cases hm'
    exact hmem

end Refinement

/-! ## The bytes and the contents of the files -/

section Mirrors

variable {path rootDir db tbl : ByteString} {s : CatalogFiles} {d d' : Disk}

/-- There is no file, or one with a descriptor on the disk and its bytes here. -/
def Mirrored (path : ByteString) (s : CatalogFiles) (d : Disk) : Prop :=
  s.files.lookup path = none ∧ d.paths path = none ∨
    ∃ desc : TableDescriptor, desc.Short ∧ d.content path = some (.metadata desc) ∧
      s.files.lookup path = some (serializeTableDescriptor desc)

/-- The catalog finds the same directories and descriptors here and on the disk. -/
structure Mirrors (rootDir : ByteString) (s : CatalogFiles) (d : Disk) : Prop where
  isDir : s.isDir = d.isDir
  files : ∀ db tbl, Mirrored (tableMetaPath rootDir db tbl) s d

theorem Mirrored.hasPath (h : Mirrored path s d) :
    CatalogStore.hasPath path s = CatalogStore.hasPath path d := by
  change (s.files.lookup path).isSome = (d.paths path).isSome
  rcases h with ⟨hs, hd⟩ | ⟨desc, -, hd, hs⟩
  · rw [hs, hd]
    rfl
  · obtain ⟨i, hi, -⟩ := Option.bind_eq_some_iff.mp hd
    rw [hs, hi]
    rfl

theorem Mirrored.readTableMetaFile (h : Mirrored path s d) :
    readTableMetaFile path s = d.readTableMetaFile path := by
  rcases h with ⟨hs, hd⟩ | ⟨desc, hshort, hd, hs⟩
  · simp [CatalogFiles.readTableMetaFile, readAllBytes, hs, Disk.readTableMetaFile,
      FileSystem.content, hd, bind, Except.bind]
  · simp [CatalogFiles.readTableMetaFile, readAllBytes, hs, hshort.decodes.whole,
      Disk.readTableMetaFile, hd, bind, Except.bind]

theorem Mirrors.databaseExists_eq (h : Mirrors rootDir s d) :
    databaseExists rootDir db s = databaseExists rootDir db d :=
  congrFun h.isDir _

theorem Mirrors.findTableMeta_eq (h : Mirrors rootDir s d) :
    findTableMeta rootDir db tbl s = findTableMeta rootDir db tbl d := by
  unfold findTableMeta
  rw [h.databaseExists_eq, (h.files db tbl).hasPath]

theorem Mirrors.getTable_eq (h : Mirrors rootDir s d) :
    getTable rootDir db tbl s = getTable rootDir db tbl d := by
  unfold getTable
  rw [h.findTableMeta_eq]
  rcases hfind : findTableMeta rootDir db tbl d with e | metaPath
  · rfl
  · obtain ⟨-, -, -, -, rfl⟩ := findTableMeta_ok.mp hfind
    exact (h.files db tbl).readTableMetaFile

/-- The paths that `g` selects are removed. -/
theorem Mirrors.unlink {g : ByteString → Bool} (h : Mirrors rootDir s d)
    (hdirs : s'.isDir = d'.isDir) (hfiles : d'.files = d.files)
    (hs : ∀ p, s'.files.lookup p = if g p then none else s.files.lookup p)
    (hd : ∀ p, d'.paths p = if g p then none else d.paths p) : Mirrors rootDir s' d' := by
  refine ⟨hdirs, fun db tbl => ?_⟩
  have hold := h.files db tbl
  rw [Mirrored, hs, FileSystem.content, hd, hfiles]
  split_ifs
  · exact .inl ⟨rfl, rfl⟩
  · exact hold

theorem lookup_foldr_erase (paths : List ByteString) (files : AList fun _ : ByteString => ByteString)
    (p : ByteString) :
    (paths.foldr AList.erase files).lookup p = if p ∈ paths then none else files.lookup p := by
  induction paths with
  | nil => simp
  | cons q paths ih =>
    rw [List.foldr_cons]
    by_cases hp : p = q
    · rw [hp, AList.lookup_erase, if_pos List.mem_cons_self]
    · rw [AList.lookup_erase_ne hp, ih]
      simp [hp]

theorem sameDirs_disk (rootDir db : ByteString) : SameDirs (Mirrors rootDir) rootDir db where
  isDir s d h := h.databaseExists_eq
  ensureDir path _ := by
    refine Tracks.modify fun s d h => ⟨?_, h.files⟩
    simp only [FileSystem.ensureDir, h.isDir]
  removeAll := by
    refine Tracks.modify fun s d h => h.unlink ?_ rfl (fun p => ?_) fun p => rfl
    · simp only [FileSystem.removeAll, h.isDir]
    · rw [lookup_foldr_erase]
      by_cases hp : p ∈ s.files
      · simp [AList.mem_keys.mp hp]
      · simp [AList.lookup_eq_none.mpr hp]

theorem writeTableMetaFile_tracks {desc : TableDescriptor} (hshort : desc.Short) (path : ByteString) :
    Tracks (Mirrors rootDir) (writeTableMetaFile path desc) (Disk.writeTableMetaFile path desc) := by
  refine Tracks.read_bind fun s d h => ?_
  rw [h.isDir]
  split_ifs
  · refine Tracks.modify fun s d h => ⟨h.isDir, fun db tbl => ?_⟩
    by_cases hp : tableMetaPath rootDir db tbl = path
    · rw [hp]
      exact .inr ⟨desc, hshort, FileSystem.create_content_self, AList.lookup_insert _⟩
    · rw [Mirrored, AList.lookup_insert_ne hp, FileSystem.create_path_of_ne hp,
        FileSystem.create_content_of_ne hp]
      exact h.files db tbl
  · exact Tracks.fail _

theorem createTable_tracks {table : TableDescriptor}
    (hshort : (normalizeTableDescriptor rootDir table).Short) :
    Tracks (Mirrors rootDir) (createTable rootDir table) (createTable rootDir table) := by
  refine Tracks.read_bind fun s d h => ?_
  rw [h.databaseExists_eq]
  split_ifs
  · exact Tracks.fail _
  · refine Tracks.ofExcept_bind fun _ _ => ?_
    dsimp only
    rw [(h.files _ _).hasPath]
    split_ifs
    · exact Tracks.fail _
    · exact writeTableMetaFile_tracks hshort _

theorem dropTable_tracks :
    Tracks (Mirrors rootDir) (dropTable rootDir db tbl) (dropTable rootDir db tbl) := by
  refine Tracks.read_bind fun s d h => ?_
  rw [h.findTableMeta_eq]
  refine Tracks.ofExcept_bind fun metaPath _ => Tracks.modify fun s d h => ?_
  refine h.unlink (g := (· = metaPath)) h.isDir rfl (fun p => ?_) fun p => rfl
  by_cases hp : p = metaPath
  · subst hp
    simp
  · simp [hp, AList.lookup_erase_ne hp]

inductive Change (rootDir : ByteString) where
  | createDatabase (db : ByteString)
  | dropDatabase (db : ByteString)
  | createTable (table : TableDescriptor) (hshort : (normalizeTableDescriptor rootDir table).Short)
  | dropTable (db tbl : ByteString)

def change {σ : Type} [CatalogStore σ] (rootDir : ByteString) (s : σ) :
    Change rootDir → Except Status Unit × σ
  | .createDatabase db => createDatabase rootDir db s
  | .dropDatabase db => dropDatabase rootDir db s
  | .createTable table _ => createTable rootDir table s
  | .dropTable db tbl => dropTable rootDir db tbl s

theorem change_follows : Follows (Mirrors rootDir) (change rootDir) (change rootDir) := by
  intro s d call h
  cases call with
  | createDatabase db => exact createDatabase_tracks (fun _ => sameDirs_disk rootDir db) s d h
  | dropDatabase db => exact dropDatabase_tracks (fun _ => sameDirs_disk rootDir db) s d h
  | createTable table hshort => exact createTable_tracks hshort s d h
  | dropTable db tbl => exact dropTable_tracks s d h

/-- Whatever is called, the catalog over the bytes of the files answers as the catalog over
their contents, and finds the same tables afterwards. -/
theorem files_answer_as_disk (calls : List (Change rootDir)) :
    trace (change rootDir) ({} : CatalogFiles) calls =
        trace (change rootDir) (FileSystem.empty : Disk) calls ∧
      ∀ db tbl, getTable rootDir db tbl (finalState (change rootDir) ({} : CatalogFiles) calls) =
        getTable rootDir db tbl (finalState (change rootDir) (FileSystem.empty : Disk) calls) := by
  have hempty : Mirrors rootDir {} FileSystem.empty := ⟨rfl, fun _ _ => .inl ⟨rfl, rfl⟩⟩
  exact ⟨change_follows.trace calls hempty, fun _ _ =>
    (change_follows.finalState calls hempty).getTable_eq⟩

end Mirrors

section Runs

inductive Call where
  | createDatabase (db : ByteString)
  | createTable (table : TableDescriptor)
  | dropTable (db t : ByteString)
  | getTable (db t : ByteString)
  | listTables (db : ByteString) (listing : Listing)

inductive Answer where
  | status (r : Except Status Unit)
  | table (r : Except Status TableDescriptor)
  | tables (r : Except Status (List TableDescriptor))

variable (rootDir : ByteString)

def step (s : CatalogFiles) : Call → Answer × CatalogFiles
  | .createDatabase db => (.status (createDatabase rootDir db s).1, (createDatabase rootDir db s).2)
  | .createTable table => (.status (createTable rootDir table s).1, (createTable rootDir table s).2)
  | .dropTable db t => (.status (dropTable rootDir db t s).1, (dropTable rootDir db t s).2)
  | .getTable db t => (.table (getTable rootDir db t s), s)
  | .listTables db listing => (.tables (listTables rootDir listing db s), s)

def TableMap.set (m : TableMap) (db t : ByteString) (desc : Option TableDescriptor) : TableMap :=
  fun db' t' => if db' = db ∧ t' = t then desc else m db' t'

/-- The map after a call that has been answered. -/
def TableMap.after (m : TableMap) : Call × Answer → TableMap
  | (.createTable table, .status (.ok ())) =>
    m.set table.databaseName table.tableName (some (normalizeTableDescriptor rootDir table))
  | (.dropTable db t, .status (.ok ())) => m.set db t none
  | _ => m

/-- The tables that were created in a run and not dropped since. -/
def live (run : List (Call × Answer)) : TableMap :=
  run.foldl (TableMap.after rootDir) fun _ _ => none

/-- The databases that were created in a run. -/
def Created (run : List (Call × Answer)) (db : ByteString) : Prop :=
  (.createDatabase db, .status (.ok ())) ∈ run

variable {rootDir} {created : ByteString → Prop} {m : TableMap} {s : CatalogFiles}

section

variable (h : Holds rootDir created m s)
include h

theorem Holds.grow (hs : Grows s s') :
    Holds rootDir created m s' where
  files := by simpa only [hs.files] using h.files
  accepted := h.accepted
  database hm := hs.isDir _ (h.database hm)
  created hdb :=
    ⟨(h.created hdb).1, hs.isDir _ (h.created hdb).2.1, hs.isDir _ (h.created hdb).2.2⟩

/-- One file is written or removed, and one entry of the map with it. -/
theorem Holds.set {db t : ByteString} {entry : Option TableDescriptor} (ht : separator ∉ t)
    (hdirs : s'.isDir = s.isDir)
    (hfiles : ∀ p, s'.files.lookup p = if p = tableMetaPath rootDir db t
      then entry.map serializeTableDescriptor else s.files.lookup p)
    (hentry : ∀ desc ∈ entry, Accepted db t desc ∧ databaseExists rootDir db s = true) :
    Holds rootDir created (m.set db t entry) s' := by
  have hcases : ∀ {db' t' desc}, m.set db t entry db' t' = some desc →
      (db' = db ∧ t' = t ∧ entry = some desc) ∨
        m db' t' = some desc ∧ tableMetaPath rootDir db' t' ≠ tableMetaPath rootDir db t := by
    intro db' t' desc hm
    unfold TableMap.set at hm
    split_ifs at hm with hsame
    · exact .inl ⟨hsame.1, hsame.2, hm⟩
    · refine .inr ⟨hm, fun hp => hsame ?_⟩
      exact tableMetaPath_injective (h.accepted hm).separator_not_mem ht hp
  refine ⟨fun p bytes => ?_, ?_, ?_, ?_⟩
  · rw [hfiles]
    constructor
    · split_ifs with hp
      · intro hbytes
        obtain ⟨desc, hdesc, rfl⟩ := Option.map_eq_some_iff.mp hbytes
        exact ⟨db, t, desc, by simp [TableMap.set, hdesc], hp, rfl⟩
      · intro hbytes
        obtain ⟨db', t', desc, hm, rfl, rfl⟩ := (h.files _ _).mp hbytes
        have hother : ¬ (db' = db ∧ t' = t) := by
          rintro ⟨rfl, rfl⟩
          exact hp rfl
        exact ⟨db', t', desc, by simp [TableMap.set, hother, hm], rfl, rfl⟩
    · rintro ⟨db', t', desc, hm, rfl, rfl⟩
      rcases hcases hm with ⟨rfl, rfl, rfl⟩ | ⟨hold, hp⟩
      · simp
      · rw [if_neg hp, h.lookup hold]
  · intro db' t' desc hm
    rcases hcases hm with ⟨rfl, rfl, hdesc⟩ | ⟨hold, -⟩
    · exact (hentry desc hdesc).1
    · exact h.accepted hold
  · intro db' t' desc hm
    rw [databaseExists_eq, hdirs]
    rcases hcases hm with ⟨rfl, rfl, hdesc⟩ | ⟨hold, -⟩
    · exact (hentry desc hdesc).2
    · exact h.database hold
  · intro db' hdb'
    rw [databaseExists_eq, hdirs]
    exact h.created hdb'

theorem Holds.withTable {table : TableDescriptor} (hshort : table.Short)
    (hvalid : validateTableDescriptor table = .ok ())
    (hdb : databaseExists rootDir table.databaseName s = true) :
    Holds rootDir created (m.set table.databaseName table.tableName (some table))
      (s.withTable rootDir table) := by
  have haccepted : Accepted table.databaseName table.tableName table := ⟨rfl, rfl, hvalid, hshort⟩
  refine h.set haccepted.separator_not_mem rfl (fun p => ?_) fun desc hdesc => ?_
  · rw [CatalogFiles.withTable]
    split_ifs with hp
    · rw [hp, AList.lookup_insert]
      rfl
    · rw [AList.lookup_insert_ne hp]
  · cases hdesc
    exact ⟨haccepted, hdb⟩

theorem Holds.erase {db t : ByteString} (ht : separator ∉ t) :
    Holds rootDir created (m.set db t none)
      { s with files := s.files.erase (tableMetaPath rootDir db t) } := by
  refine h.set ht rfl (fun p => ?_) (by simp)
  split_ifs with hp
  · rw [hp, AList.lookup_erase]
    rfl
  · rw [AList.lookup_erase_ne hp]

theorem Holds.created_mono {created' : ByteString → Prop}
    (hsub : ∀ db, created' db → created db ∨ validateDatabaseName db = .ok () ∧
      databaseExists rootDir db s = true ∧ s.isDir (catalogDirPath rootDir db) = true) :
    Holds rootDir created' m s where
  files := h.files
  accepted := h.accepted
  database := h.database
  created {db} hdb := by
    rcases hsub db hdb with hold | hnew
    · exact h.created hold
    · exact hnew

/-- A call changes the map and the databases as its answer says. -/
theorem Holds.after (call : Call)
    (hcall : ∀ table, call = .createTable table → (normalizeTableDescriptor rootDir table).Short) :
    Holds rootDir (fun db => created db ∨ Created [(call, (step rootDir s call).1)] db)
      (m.after rootDir (call, (step rootDir s call).1)) (step rootDir s call).2 := by
  cases call with
  | createDatabase db =>
    refine (h.grow (createDatabase_within ensureDir_grows s)).created_mono fun db' hdb' => ?_
    rcases hdb' with hold | hnew
    · exact .inl hold
    · right
      obtain ⟨rfl, hok⟩ : db' = db ∧ Except.ok () = (createDatabase rootDir db s).1 := by
        simpa [Created, CatalogFiles.step] using hnew
      exact createDatabase_ok (Prod.ext hok.symm rfl)
  | createTable table =>
    refine Holds.created_mono (show Holds rootDir created _ _ from ?_) fun db hdb =>
      .inl (by simpa [Created] using hdb)
    simp only [CatalogFiles.step]
    rcases createTable_cases rootDir table s with ⟨e, he⟩ | ⟨hadmits, hok⟩
    · rw [he]
      exact h
    · rw [hok]
      exact h.withTable (hcall table rfl) hadmits.valid hadmits.database
  | dropTable db t =>
    refine Holds.created_mono (show Holds rootDir created _ _ from ?_) fun db hdb =>
      .inl (by simpa [Created] using hdb)
    simp only [CatalogFiles.step]
    rcases dropTable_cases rootDir db t s with ⟨e, he⟩ | ⟨ht, hok⟩
    · rw [he]
      exact h
    · rw [hok]
      exact h.erase (isValidName_separator (isValidName_of_tableName ht))
  | getTable db t => exact h.created_mono fun db hdb => .inl (by simpa [Created] using hdb)
  | listTables db listing =>
    exact h.created_mono fun db hdb => .inl (by simpa [Created] using hdb)

theorem Holds.run {calls : List Call}
    (hcalls : ∀ table, .createTable table ∈ calls → (normalizeTableDescriptor rootDir table).Short) :
    Holds rootDir (fun db => created db ∨ Created (trace (step rootDir) s calls) db)
      ((trace (step rootDir) s calls).foldl (TableMap.after rootDir) m)
      (finalState (step rootDir) s calls) := by
  induction calls generalizing created m s with
  | nil => simpa [trace, finalState, Created] using h
  | cons call calls ih =>
    have hstep := h.after call fun table htable => hcalls table (by simp [htable])
    have hrest := ih hstep fun table htable => hcalls table (by simp [htable])
    refine hrest.created_mono fun db hdb => .inl ?_
    simpa [trace, Created, or_assoc] using hdb

end

theorem holds_empty (rootDir : ByteString) :
    Holds rootDir (fun _ => False) (fun _ _ => none) {} where
  files p bytes := by simp
  accepted h := by cases h
  database h := by cases h
  created h := h.elim

/-- The catalog refines a map of descriptors: after every run in which each
descriptor fits its fields, `GetTable` and `ListTables` answer from the tables
created and not dropped since, and a creation that fails changes nothing. -/
theorem catalog_refines_map (rootDir : ByteString) {calls : List Call}
    (hcalls : ∀ table, .createTable table ∈ calls →
      (normalizeTableDescriptor rootDir table).Short) :
    (∀ db t, match live rootDir (trace (step rootDir) {} calls) db t with
      | some desc => getTable rootDir db t (finalState (step rootDir) {} calls) = .ok desc
      | none => ∃ e, getTable rootDir db t (finalState (step rootDir) {} calls) = .error e) ∧
    (∀ db listing, Created (trace (step rootDir) {} calls) db →
      ∃ tables, listTables rootDir listing db (finalState (step rootDir) {} calls) = .ok tables ∧
        tables.Pairwise (fun a b => a.tableName < b.tableName) ∧
        ∀ desc, desc ∈ tables ↔
          live rootDir (trace (step rootDir) {} calls) db desc.tableName = some desc) ∧
    ∀ table e s', createTable rootDir table (finalState (step rootDir) {} calls) = (.error e, s') →
      s' = finalState (step rootDir) {} calls := by
  have h := (holds_empty rootDir).run hcalls
  refine ⟨fun db t => ?_, fun db listing hdb => ?_, fun table e s' herror => ?_⟩
  · split
    · next desc hm => exact h.getTable_eq hm
    · next hm => exact h.getTable_error hm
  · exact h.listTables_eq (.inr hdb) listing
  · rcases createTable_cases rootDir table (finalState (step rootDir) {} calls) with
      ⟨e', he⟩ | ⟨-, hok⟩
    · rw [he] at herror
      cases herror
      rfl
    · rw [hok] at herror
      cases herror

/-- A table with one column and an index whose file is to be in `indexDir`. -/
def indexedTable (indexDir : ByteString) : TableDescriptor where
  databaseName := ascii "d"
  tableName := ascii "t"
  dataFile := []
  indexDir := indexDir
  schema := [{ name := ascii "a" }]
  indexes := [{ name := ascii "i", tableName := [], columnName := ascii "a", filePath := [] }]

def createIndexed (indexDir : ByteString) : List Call :=
  [.createDatabase (ascii "d"), .createTable (indexedTable indexDir)]

theorem indexedTable_short :
    (normalizeTableDescriptor (ascii "r") (indexedTable (ascii "x"))).Short where
  databaseName := by decide
  tableName := by decide
  dataFile := by decide
  indexDir := by decide
  columns := List.forall_mem_singleton.mpr ⟨by decide, by simp⟩
  columnCount := by decide
  indexes := List.forall_mem_singleton.mpr ⟨by decide, by decide, by decide, by decide⟩
  indexCount := by decide

theorem createIndexed_short (table : TableDescriptor)
    (htable : .createTable table ∈ createIndexed (ascii "x")) :
    (normalizeTableDescriptor (ascii "r") table).Short := by
  obtain rfl : table = indexedTable (ascii "x") := by simpa [createIndexed] using htable
  exact indexedTable_short

theorem catalog_refines_map_indexed :
    getTable (ascii "r") (ascii "d") (ascii "t")
        (finalState (step (ascii "r")) {} (createIndexed (ascii "x"))) =
      .ok (normalizeTableDescriptor (ascii "r") (indexedTable (ascii "x"))) :=
  (catalog_refines_map (ascii "r") createIndexed_short).1 (ascii "d") (ascii "t")

/-- The calls succeed whatever the directory is called, and leave one file. -/
theorem createIndexed_answers (hdir : dir ≠ []) :
    trace (step (ascii "r")) {} (createIndexed dir) =
        [(.createDatabase (ascii "d"), .status (.ok ())),
          (.createTable (indexedTable dir), .status (.ok ()))] ∧
      findTableMeta (ascii "r") (ascii "d") (ascii "t")
          (finalState (step (ascii "r")) {} (createIndexed dir)) =
        .ok (tableMetaPath (ascii "r") (ascii "d") (ascii "t")) ∧
      readAllBytes (tableMetaPath (ascii "r") (ascii "d") (ascii "t"))
          (finalState (step (ascii "r")) {} (createIndexed dir)) =
        .ok (serializeTableDescriptor
          (normalizeTableDescriptor (ascii "r") (indexedTable dir))) := by
  obtain ⟨b, dir, rfl⟩ := List.exists_cons_of_ne_nil hdir
  exact ⟨rfl, rfl, rfl⟩

/-- A directory name of the greatest length that its field can hold. -/
def longDir : ByteString := List.replicate (2 ^ 32 - 1) 100

theorem longDir_length : longDir.length = 2 ^ 32 - 1 := List.length_replicate

/-- The first bytes of the name, and a byte that is no truth value. -/
theorem longDir_eq : longDir = List.replicate 5 100 ++ 100 :: List.replicate (2 ^ 32 - 7) 100 := by
  have hlength : 2 ^ 32 - 1 = 5 + (2 ^ 32 - 7 + 1) := by norm_num
  rw [longDir, ← List.replicate_succ, ← List.replicate_add, ← hlength]

def invalidBool : Status := ⟨.kInvalidArgument, "Corrupted binary payload: invalid bool value"⟩

theorem readBool_rejects (rest : ByteString) : Rejects readBool (100 :: rest) invalidBool := by
  have hbyte : Rejects readBool (leBytes 1 100) invalidBool :=
    (Decodes.uint unexpectedEnd (by decide)).map fun _ _ => rfl
  exact hbyte.append rest

/-- The path of the index is longer by six bytes than the directory, so that
five bytes of it are left after the truncation of its length. -/
theorem deserializeIndexDescriptor_rejects {index : IndexDescriptor} (hname : index.name.length < 2 ^ 32)
    (htable : index.tableName.length < 2 ^ 32) (hcolumn : index.columnName.length < 2 ^ 32)
    (hpath : index.filePath = longDir ++ ascii "/i.idx") :
    Rejects deserializeIndexDescriptor (serializeIndexDescriptor index) invalidBool := by
  have hlength : writeUint32 index.filePath.length = writeUint32 5 := by
    rw [hpath, List.length_append, longDir_length]
    decide
  have hbytes : writeString index.filePath ++ writeBool index.unique =
      writeString (List.replicate 5 100) ++ (100 :: List.replicate (2 ^ 32 - 7) 100 ++
        ascii "/i.idx" ++ writeBool index.unique) := by
    rw [writeString, hlength, hpath, longDir_eq, writeString, List.length_replicate]
    simp only [List.append_assoc]
  refine (readString_decodes hname).bind ?_
  refine (readString_decodes htable).bind ?_
  refine (readString_decodes hcolumn).bind ?_
  rw [hbytes]
  refine (readString_decodes (by decide)).bind ?_
  exact Rejects.bind_left (readBool_rejects _)

theorem normalize_longDir :
    normalizeTableDescriptor (ascii "r") (indexedTable longDir) =
      { indexedTable longDir with
        dataFile := ascii "r/d/tables/t.tbl"
        indexes := [⟨ascii "i", ascii "t", ascii "a", longDir ++ ascii "/i.idx", true⟩] } := by
  have hdir : longDir.isEmpty = false := by
    rw [longDir_eq]
    rfl
  simp only [normalizeTableDescriptor, indexedTable, orDefault, hdir, defaultIndexFilePath,
    List.append_assoc]
  rfl

theorem deserializeTableDescriptor_rejects :
    Rejects deserializeTableDescriptor
      (serializeTableDescriptor (normalizeTableDescriptor (ascii "r") (indexedTable longDir)))
      invalidBool := by
  rw [normalize_longDir]
  have hcolumn : ColumnSchema.Short { name := ascii "a" } := ⟨by decide, by simp⟩
  have hschema : Decodes deserializeTableSchema (serializeTableSchema [{ name := ascii "a" }])
      [{ name := ascii "a" }] :=
    (readUint32_decodes (n := 1) (by decide)).bind
      (Decodes.times (List.forall_mem_singleton.mpr hcolumn.decodes))
  refine (readString_decodes (s := ascii "d") (by decide)).bind ?_
  refine (readString_decodes (s := ascii "t") (by decide)).bind ?_
  refine (readString_decodes (by decide)).bind ?_
  refine (readString_decodes (s := longDir) ?_).bind ?_
  · rw [longDir_length]
    norm_num
  refine hschema.bind ?_
  refine (readUint32_decodes (n := 1) (by decide)).bind ?_
  rw [List.flatMap_singleton]
  refine Rejects.bind_left (Rejects.bind_left ?_)
  exact deserializeIndexDescriptor_rejects (by decide) (by decide) (by decide) rfl

theorem indexedTable_longDir_strings :
    (indexedTable longDir).Short where
  databaseName := by decide
  tableName := by decide
  dataFile := by decide
  indexDir := by
    change longDir.length < 2 ^ 32
    rw [longDir_length]
    norm_num
  columns := List.forall_mem_singleton.mpr ⟨by decide, by simp⟩
  columnCount := by decide
  indexes := List.forall_mem_singleton.mpr ⟨by decide, by decide, by decide, by decide⟩
  indexCount := by decide

/-- Every text of the descriptor fits its field, and the table is created. The
default path of the index does not fit, and the table cannot be read again. -/
theorem catalog_loses_table :
    (indexedTable longDir).Short ∧
      trace (step (ascii "r")) {} (createIndexed longDir) =
        [(.createDatabase (ascii "d"), .status (.ok ())),
          (.createTable (indexedTable longDir), .status (.ok ()))] ∧
      getTable (ascii "r") (ascii "d") (ascii "t")
        (finalState (step (ascii "r")) {} (createIndexed longDir)) = .error invalidBool := by
  have hdir : longDir ≠ [] := by
    rw [← List.length_pos_iff, longDir_length]
    norm_num
  obtain ⟨hanswers, hfind, hbytes⟩ := createIndexed_answers hdir
  refine ⟨indexedTable_longDir_strings, hanswers, ?_⟩
  rw [getTable_of_find hfind]
  exact readTableMetaFile_of_corrupt hbytes deserializeTableDescriptor_rejects.whole

end Runs

end CatalogFiles

end CourseDb

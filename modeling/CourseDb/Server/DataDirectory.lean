import CourseDb.Catalog.CatalogFiles
import CourseDb.Runtime.StorageNodeEngine

/-! # The data directory of a server

A database is a directory in the data directory, and the server keeps its logs
and its tasks in the same place. Paths are resolved here as the operating system
does it, and every file is marked with what it was made for, so that one can ask
whose files a dropped database takes along.
-/

namespace CourseDb

open Fallible (read_bind bind_ok bind_error ofExcept_apply ofExcept_bind modify_apply fail_apply fail
  ofExcept Keeps Tracks)
open CatalogManager StorageNodeEngine
open Function (update update_of_ne update_self)
open Disk (separator)

/-- What the operating system reads of a path. -/
def cString (path : ByteString) : ByteString := path.takeWhile (· ≠ 0)

/-- The names along a path. Empty names and `.` lead nowhere. -/
def components (path : ByteString) : List ByteString :=
  ((cString path).splitOn separator).filter fun name => name ≠ [] ∧ name ≠ ascii "."

/-- The last name as it is written is `.`. -/
def endsInDot (path : ByteString) : Bool :=
  ((cString path).splitOn separator).getLast? = some (ascii ".")

section Components

variable {dir name rest : ByteString}

section

variable (h : 0 ∉ dir)
include h

theorem cString_of_notMem : cString dir = dir := by
  rw [cString, List.takeWhile_eq_self_iff]
  intro b hb
  simpa using ne_of_mem_of_not_mem hb h

theorem cString_append : cString (dir ++ rest) = dir ++ cString rest := by
  rw [cString, List.takeWhile_append_of_pos]
  · rfl
  · intro b hb
    simpa using ne_of_mem_of_not_mem hb h

theorem components_cons_append :
    components (dir ++ separator :: rest) = components dir ++ components rest := by
  have hrest : cString (separator :: rest) = separator :: cString rest := rfl
  rw [components, cString_append h, hrest, List.splitOn, List.splitOnP_append_cons _ _ (by simp),
    List.filter_append, components, components, cString_of_notMem h]
  rfl

theorem components_append :
    components (dir ++ ascii "/" ++ rest) = components dir ++ components rest := by
  rw [List.append_assoc]
  exact components_cons_append h

theorem components_joinPath :
    components (joinPath dir rest) = components dir ++ components rest := by
  rw [joinPath]
  split_ifs with hend
  · rw [Bool.or_eq_true, List.isEmpty_iff, decide_eq_true_eq] at hend
    rcases hend with rfl | hlast
    · rfl
    · obtain ⟨front, rfl⟩ := List.getLast?_eq_some_iff.mp hlast
      have hfront : 0 ∉ front := fun hmem => h (List.mem_append_left _ hmem)
      rw [List.append_assoc, List.singleton_append, components_cons_append hfront,
        components_cons_append hfront]
      simp [show components [] = [] from rfl]
  · exact components_append h

theorem joinPath_text (hrest : 0 ∉ rest) : 0 ∉ joinPath dir rest := by
  rw [joinPath]
  split_ifs
  · simp [h, hrest]
  · simp [h, hrest, show (0 : Byte) ∉ ascii "/" by decide]

end

/-- A name that the operating system takes as it is. -/
structure PlainName (name : ByteString) : Prop where
  text : 0 ∉ name
  ne_dot : name ≠ ascii "."

theorem splitOn_of_notMem (h : separator ∉ name) : name.splitOn separator = [name] :=
  List.splitOnP_eq_singleton fun _ hb => beq_eq_false_iff_ne.mpr (ne_of_mem_of_not_mem hb h)

theorem components_name (hname : PlainName name) (hvalid : isValidName name = true) :
    components name = [name] := by
  rw [components, cString_of_notMem hname.text,
    splitOn_of_notMem (CatalogFiles.isValidName_separator hvalid)]
  simp [hname.ne_dot, isValidName_ne_nil hvalid]

theorem length_components_le (h : separator ∉ name) : (components name).length ≤ 1 := by
  have hsep : separator ∉ cString name := fun hmem => h ((List.takeWhile_prefix _).subset hmem)
  rw [components, splitOn_of_notMem hsep]
  exact List.length_filter_le _ _

theorem not_endsInDot (hname : PlainName name) (hvalid : isValidName name = true)
    (hdir : 0 ∉ dir) : endsInDot (dir ++ ascii "/" ++ name) = false := by
  have hsplit := splitOn_of_notMem (CatalogFiles.isValidName_separator hvalid)
  have hpath : dir ++ ascii "/" ++ name = dir ++ separator :: name := List.append_assoc ..
  have hrest : cString (separator :: name) = separator :: cString name := rfl
  rw [endsInDot, hpath, cString_append hdir, hrest, cString_of_notMem hname.text, List.splitOn,
    List.splitOnP_append_cons _ _ (by simp), ← List.splitOn, ← List.splitOn, hsplit]
  simp [hname.ne_dot]

end Components

/-! ## Directories and files -/

/-- What a file was made for. -/
inductive Owner where
  | server
  | database (dbName : ByteString)
deriving DecidableEq

inductive Entry where
  | directory
  | file (owner : Owner)
deriving DecidableEq

namespace Entry

def isFile : Option Entry → Bool
  | some (.file _) => true
  | _ => false

end Entry

/-- The entries, by the names along their paths. -/
abbrev DataDirectory := List ByteString → Option Entry

namespace DataDirectory

abbrev Action (α : Type) := Fallible Status DataDirectory α

def isDirectory (path : ByteString) (t : DataDirectory) : Bool :=
  t (components path) = some .directory

def makeDirs (path : List ByteString) (t : DataDirectory) : DataDirectory := fun p =>
  if p <+: path then some .directory else t p

def ensureDir (path : ByteString) : Action Unit := do
  let t ← Fallible.read
  if (components path).inits.any fun p => Entry.isFile (t p) then
    fail ⟨.kIoError, "Not a directory"⟩
  else
    Fallible.modify (makeDirs (components path))

/-- `std::filesystem::remove_all`. A directory cannot be removed by the name `.`;
the entries in it are gone then. -/
def removeAll (path : ByteString) : Action Unit := do
  Fallible.modify fun t p =>
    if components path <+: p ∧ ¬ (endsInDot path ∧ p = components path) then none else t p
  if endsInDot path then
    fail ⟨.kIoError, "Failed to remove database directory"⟩
  else
    return ()

/-- A file is only made in a directory; one that is there keeps its mark. -/
def writeFile (path : ByteString) (owner : Owner) (t : DataDirectory) : DataDirectory :=
  if t (components path) = none ∧ t (components path).dropLast = some .directory then
    update t (components path) (some (.file owner))
  else
    t

def removeFile (path : ByteString) (t : DataDirectory) : DataDirectory :=
  if Entry.isFile (t (components path)) then update t (components path) none else t

instance instDirStore : DirStore DataDirectory where
  isDir := isDirectory
  ensureDir := ensureDir
  removeAll := removeAll

/-! ## The files of tables and of the server -/

/-- The files of a table that SQL creates. -/
inductive TablePart where
  | descriptor
  | data
  | index (name : ByteString)
  | versions

namespace TablePart

variable (rootDir dbName tableName : ByteString)

def dir : TablePart → ByteString
  | descriptor => catalogDirPath rootDir dbName
  | data => tablesDirPath rootDir dbName
  | index _ => defaultTableIndexDir rootDir dbName tableName
  | versions => joinPath (joinPath rootDir dbName) (ascii "versions")

def path : TablePart → ByteString
  | descriptor => tableMetaPath rootDir dbName tableName
  | data => defaultTableDataPath rootDir dbName tableName
  | index name => defaultIndexFilePath (defaultTableIndexDir rootDir dbName tableName) name
  | versions => joinPath (joinPath (joinPath rootDir dbName) (ascii "versions"))
      (tableName ++ ascii ".vlog")

end TablePart

/-- `dir` lies below `dataDir`, and the way there does not lead back up. -/
def Inside (dataDir dir : ByteString) : Prop :=
  ∃ sub, components dir = components dataDir ++ sub ∧ ascii ".." ∉ sub

/-- Where a server keeps what it writes. -/
structure ServerConfig where
  dataDir : ByteString
  logDir : ByteString
  taskQueueDir : ByteString
  /-- The data directory is an argument of the command line. -/
  dataDir_text : 0 ∉ dataDir
  logDir_text : 0 ∉ logDir
  taskQueueDir_text : 0 ∉ taskQueueDir
  logDir_inside : Inside dataDir logDir
  taskQueueDir_inside : Inside dataDir taskQueueDir

/-- The option `--data` of the server. -/
def ServerConfig.ofData (root : ByteString) (h : 0 ∉ root) : ServerConfig where
  dataDir := root
  logDir := joinPath root (ascii "logs")
  taskQueueDir := joinPath root (ascii "task_queue")
  dataDir_text := h
  logDir_text := joinPath_text h (by decide)
  taskQueueDir_text := joinPath_text h (by decide)
  logDir_inside := ⟨[ascii "logs"], components_joinPath h, by decide⟩
  taskQueueDir_inside := ⟨[ascii "task_queue"], components_joinPath h, by decide⟩

/-- The directories with files of the server: its logs, the log of the task queue and, in the data
directory itself, the store of users and groups. -/
inductive Place where
  | logs
  | tasks
  | data

def Place.dir (cfg : ServerConfig) : Place → ByteString
  | logs => cfg.logDir
  | tasks => cfg.taskQueueDir
  | data => cfg.dataDir

/-! ## A run of the server -/

inductive Event where
  | start
  | writeServerFile (place : Place) (name : ByteString) (h : separator ∉ name)
  | removeServerFile (place : Place) (name : ByteString) (h : separator ∉ name)
  | createDatabase (dbName : ByteString)
  | dropDatabase (dbName : ByteString)
  | writeTableFile (dbName tableName : ByteString) (part : TablePart)
  | removeTableFile (dbName tableName : ByteString) (part : TablePart)

/-- What the constructors of the subsystems do to the directories. -/
def start (cfg : ServerConfig) : Action Unit := do
  ensureDir cfg.logDir
  ensureDir cfg.dataDir
  ensureDir cfg.taskQueueDir

def validatePart : TablePart → Except Status Unit
  | .index name => if !isValidName name then invalid "Invalid index name" else .ok ()
  | _ => .ok ()

/-- The catalog accepts the names and finds the database. -/
def findDatabase (rootDir dbName tableName : ByteString) (part : TablePart) (t : DataDirectory) :
    Except Status Unit := do
  validateDatabaseName dbName
  validateTableName tableName
  validatePart part
  if !databaseExists rootDir dbName t then
    .error databaseNotFound
  else
    .ok ()

/-- Opening a file of a table makes the directories above it. -/
def writeTableFile (rootDir dbName tableName : ByteString) (part : TablePart) : Action Unit := do
  let t ← Fallible.read
  ofExcept (t.findDatabase rootDir dbName tableName part)
  ensureDir (part.dir rootDir dbName tableName)
  Fallible.modify (writeFile (part.path rootDir dbName tableName) (.database dbName))

def removeTableFile (rootDir dbName tableName : ByteString) (part : TablePart) : Action Unit := do
  let t ← Fallible.read
  ofExcept (t.findDatabase rootDir dbName tableName part)
  Fallible.modify (removeFile (part.path rootDir dbName tableName))

def call (cfg : ServerConfig) : Event → Action Unit
  | .start => start cfg
  | .writeServerFile place name _ =>
    Fallible.modify (writeFile (joinPath (place.dir cfg) name) .server)
  | .removeServerFile place name _ => Fallible.modify (removeFile (joinPath (place.dir cfg) name))
  | .createDatabase dbName => createDatabase cfg.dataDir dbName
  | .dropDatabase dbName => dropDatabase cfg.dataDir dbName
  | .writeTableFile dbName tableName part => writeTableFile cfg.dataDir dbName tableName part
  | .removeTableFile dbName tableName part => removeTableFile cfg.dataDir dbName tableName part

/-- The entries, and the databases that exist by the answers given so far. -/
structure Run where
  entries : DataDirectory
  existing : Finset ByteString

/-- The databases that exist after an answer. -/
def record (existing : Finset ByteString) : Event → Except Status Unit → Finset ByteString
  | .createDatabase dbName, .ok _ => insert dbName existing
  | .dropDatabase dbName, .ok _ => existing.erase dbName
  | _, _ => existing

def step (cfg : ServerConfig) (s : Run) (e : Event) : Except Status Unit × Run :=
  ((call cfg e s.entries).1,
    ⟨(call cfg e s.entries).2, record s.existing e (call cfg e s.entries).1⟩)

def initial : Run := ⟨fun _ => none, ∅⟩

/-- A database is dropped only if it exists and takes only its own files along, and a database
that cannot be created because it exists does exist. -/
def Lawful (cfg : ServerConfig) (s : Run) : Event → Prop
  | .dropDatabase n =>
    ((step cfg s (.dropDatabase n)).1 = .ok () → n ∈ s.existing) ∧
      ∀ p owner, s.entries p = some (.file owner) →
        (step cfg s (.dropDatabase n)).2.entries p = none → owner = .database n
  | .createDatabase n =>
    ∀ message, (step cfg s (.createDatabase n)).1 = .error ⟨.kAlreadyExists, message⟩ →
      n ∈ s.existing
  | _ => True

/-- The name leads to an entry of the data directory that the server does not use itself. -/
structure ServerConfig.Free (cfg : ServerConfig) (n : ByteString) : Prop where
  plain : PlainName n
  logs : ¬ components cfg.dataDir ++ [n] <+: components cfg.logDir
  tasks : ¬ components cfg.dataDir ++ [n] <+: components cfg.taskQueueDir

def Event.databaseName : Event → Option ByteString
  | .createDatabase n | .dropDatabase n | .writeTableFile n _ _ | .removeTableFile n _ _ => some n
  | _ => none

/-! ## What a run keeps -/

/-- Entries lie in directories; every directory that may be a database is one, and every file in
it was made for it. -/
structure Separated (cfg : ServerConfig) (existing : Finset ByteString) (t : DataDirectory) :
    Prop where
  closed : ∀ p name, t (p ++ [name]) ≠ none → t p = some .directory
  exists_of : ∀ n, cfg.Free n → t (components cfg.dataDir ++ [n]) = some .directory → n ∈ existing
  owner : ∀ n p name o, cfg.Free n → components cfg.dataDir ++ [n] <+: p →
    t (p ++ [name]) = some (.file o) → o = .database n

variable {path p : List ByteString}

section Steps

variable {cfg : ServerConfig} {existing : Finset ByteString} {t : DataDirectory}

theorem makeDirs_above (h : p <+: path) :
    makeDirs path t p = some .directory := if_pos h

theorem makeDirs_elsewhere (h : ¬ p <+: path) :
    makeDirs path t p = t p := if_neg h

theorem Separated.makeDirs (h : Separated cfg existing t)
    (hpath : ∀ n, cfg.Free n → components cfg.dataDir ++ [n] <+: path → n ∈ existing) :
    Separated cfg existing (makeDirs path t) where
  closed p name hne := by
    by_cases hp : p <+: path
    · exact makeDirs_above hp
    · have hname : ¬ p ++ [name] <+: path := fun hpre => hp ((List.prefix_append _ _).trans hpre)
      rw [makeDirs_elsewhere hname] at hne
      rw [makeDirs_elsewhere hp]
      exact h.closed p name hne
  exists_of n hfree hdir := by
    by_cases hn : components cfg.dataDir ++ [n] <+: path
    · exact hpath n hfree hn
    · rw [makeDirs_elsewhere hn] at hdir
      exact h.exists_of n hfree hdir
  owner n p name o hfree hp hfile := by
    by_cases hpre : p ++ [name] <+: path
    · rw [makeDirs_above hpre] at hfile
      cases hfile
    · rw [makeDirs_elsewhere hpre] at hfile
      exact h.owner n p name o hfree hp hfile

/-- An entry that is not what was put at a path was there before. -/
theorem entry_of_update {new : Option Entry} {entry : Entry}
    (h : update t path new p = some entry) (hne : new ≠ some entry) : t p = some entry := by
  have hp : p ≠ path := by
    rintro rfl
    rw [update_self] at h
    exact hne h
  rwa [update_of_ne hp] at h

theorem Separated.writeFile {path : ByteString} {owner : Owner} (h : Separated cfg existing t)
    (howner : ∀ n p name, cfg.Free n → components cfg.dataDir ++ [n] <+: p →
      components path = p ++ [name] → owner = .database n) :
    Separated cfg existing (writeFile path owner t) := by
  rw [DataDirectory.writeFile]
  split_ifs with hnew
  · obtain ⟨hnone, hparent⟩ := hnew
    refine ⟨fun p name hne => ?_, fun n hfree hdir => ?_, fun n p name o hfree hp hfile => ?_⟩
    · have hp : p ≠ components path := by
        rintro rfl
        have hother : components path ++ [name] ≠ components path := by simp
        rw [update_of_ne hother] at hne
        rw [h.closed _ name hne] at hnone
        cases hnone
      rw [update_of_ne hp]
      by_cases hself : p ++ [name] = components path
      · rw [← hself, List.dropLast_concat] at hparent
        exact hparent
      · rw [update_of_ne hself] at hne
        exact h.closed p name hne
    · exact h.exists_of n hfree (entry_of_update hdir nofun)
    · by_cases hself : p ++ [name] = components path
      · rw [hself, update_self] at hfile
        cases hfile
        exact howner n p name hfree hp hself.symm
      · rw [update_of_ne hself] at hfile
        exact h.owner n p name o hfree hp hfile
  · exact h

theorem Separated.removeFile {path : ByteString} (h : Separated cfg existing t) :
    Separated cfg existing (removeFile path t) := by
  rw [DataDirectory.removeFile]
  split_ifs with hfile
  · have hnotDir : t (components path) ≠ some .directory := by
      intro hdir
      rw [hdir] at hfile
      cases hfile
    refine ⟨fun p name hne => ?_, fun n hfree hdir => ?_, fun n p name o hfree hp hfile => ?_⟩
    · have hself : p ++ [name] ≠ components path := by
        intro heq
        rw [heq, update_self] at hne
        exact hne rfl
      rw [update_of_ne hself] at hne
      have hdir := h.closed p name hne
      have hp : p ≠ components path := by
        rintro rfl
        exact hnotDir hdir
      rw [update_of_ne hp, hdir]
    · exact h.exists_of n hfree (entry_of_update hdir nofun)
    · exact h.owner n p name o hfree hp (entry_of_update hfile nofun)
  · exact h

theorem ensureDir_keeps {path : ByteString}
    (hpath : ∀ n, cfg.Free n → components cfg.dataDir ++ [n] <+: components path →
      n ∈ existing) :
    Keeps (Separated cfg existing) (ensureDir path) fun _ => True := by
  refine Keeps.bind Keeps.read fun t _ => Keeps.ite ?_ ?_
  · exact fun _ => Keeps.fail _
  · exact fun _ => Keeps.mono (Keeps.modify fun s hs => hs.makeDirs hpath) fun _ _ => trivial

theorem makeDirs_isFile (h : Entry.isFile (t p) = false) :
    Entry.isFile (DataDirectory.makeDirs path t p) = false := by
  rw [DataDirectory.makeDirs]
  split_ifs
  · rfl
  · exact h

theorem ensureDir_of_clear {path : ByteString}
    (h : ∀ p, p <+: components path → Entry.isFile (t p) = false) :
    ensureDir path t = (.ok (), DataDirectory.makeDirs (components path) t) := by
  have hnone : ¬ ((components path).inits.any fun p => Entry.isFile (t p)) = true := by
    rw [List.any_eq_true]
    rintro ⟨p, hp, hfile⟩
    rw [h p ((List.mem_inits p _).mp hp)] at hfile
    cases hfile
  rw [ensureDir, read_bind, if_neg hnone, modify_apply]

theorem ensureDir_cases (path : ByteString) (t : DataDirectory) :
    ensureDir path t = (.error ⟨.kIoError, "Not a directory"⟩, t) ∨
      (ensureDir path t = (.ok (), DataDirectory.makeDirs (components path) t) ∧
        ∀ p, p <+: components path → Entry.isFile (t p) = false) := by
  by_cases h : ∀ p, p <+: components path → Entry.isFile (t p) = false
  · exact .inr ⟨ensureDir_of_clear h, h⟩
  · push Not at h
    obtain ⟨p, hp, hfile⟩ := h
    have hany : ((components path).inits.any fun p => Entry.isFile (t p)) = true :=
      List.any_eq_true.mpr ⟨p, (List.mem_inits p _).mpr hp, by simpa using hfile⟩
    left
    rw [ensureDir, read_bind, if_pos hany, fail_apply]

end Steps

section Names

variable {rootDir n : ByteString} (hroot : 0 ∉ rootDir) (hn : PlainName n)
  (hvalid : isValidName n = true)

include hroot hn hvalid

theorem components_databasePath : components (databasePath rootDir n) = components rootDir ++ [n] := by
  rw [databasePath, components_append hroot, components_name hn hvalid]

omit hvalid in
theorem databasePath_text : 0 ∉ databasePath rootDir n := by
  simp [databasePath, hroot, hn.text, show (0 : Byte) ∉ ascii "/" by decide]

theorem components_subdir (rest : ByteString) :
    components (databasePath rootDir n ++ separator :: rest) =
      components rootDir ++ [n] ++ components rest := by
  rw [components_cons_append (databasePath_text hroot hn), components_databasePath hroot hn hvalid]

theorem prefix_of_eq {path rest : ByteString}
    (h : path = databasePath rootDir n ++ separator :: rest) :
    components rootDir ++ [n] <+: components path := by
  rw [h, components_subdir hroot hn hvalid]
  exact List.prefix_append _ _

theorem prefix_dir (tbl : ByteString) (part : TablePart) :
    components rootDir ++ [n] <+: components (part.dir rootDir n tbl) := by
  cases part with
  | descriptor => exact prefix_of_eq hroot hn hvalid rfl
  | data => exact prefix_of_eq hroot hn hvalid rfl
  | index name =>
    apply prefix_of_eq hroot hn hvalid
    simp only [TablePart.dir, defaultTableIndexDir, indexesDirPath, List.append_assoc]
    rfl
  | versions =>
    rw [TablePart.dir, components_joinPath (joinPath_text hroot hn.text), components_joinPath hroot,
      components_name hn hvalid]
    exact List.prefix_append _ _

theorem prefix_path (tbl : ByteString) (part : TablePart) :
    components rootDir ++ [n] <+: components (part.path rootDir n tbl) := by
  cases part with
  | descriptor =>
    apply prefix_of_eq hroot hn hvalid
    simp only [TablePart.path, tableMetaPath, catalogDirPath, List.append_assoc]
    rfl
  | data =>
    apply prefix_of_eq hroot hn hvalid
    simp only [TablePart.path, defaultTableDataPath, tablesDirPath, List.append_assoc]
    rfl
  | index name =>
    apply prefix_of_eq hroot hn hvalid
    simp only [TablePart.path, defaultIndexFilePath, defaultTableIndexDir, indexesDirPath,
      List.append_assoc]
    rfl
  | versions =>
    have hversions : (0 : Byte) ∉ ascii "versions" := by decide
    rw [TablePart.path, components_joinPath (joinPath_text (joinPath_text hroot hn.text) hversions),
      components_joinPath (joinPath_text hroot hn.text), components_joinPath hroot,
      components_name hn hvalid, List.append_assoc]
    exact List.prefix_append _ _

end Names

section Calls

variable {cfg : ServerConfig} {existing : Finset ByteString} {t : DataDirectory}
  {n m tbl : ByteString} {part : TablePart}

theorem eq_of_below {dir : List ByteString} (hm : dir ++ [m] <+: path) (hn : dir ++ [n] <+: path) :
    m = n := by
  have hpre := List.prefix_of_prefix_length_le hm hn (by simp)
  simpa using hpre.eq_of_length (by simp)

theorem not_prefix_self (dir : List ByteString) (n : ByteString) : ¬ dir ++ [n] <+: dir := fun h => by
  simpa using h.length_le

theorem Separated.mono {existing' : Finset ByteString} (h : Separated cfg existing t)
    (hsub : existing ⊆ existing') : Separated cfg existing' t :=
  ⟨h.closed, fun n hfree hdir => hsub (h.exists_of n hfree hdir), h.owner⟩

/-- No file lies on the way to a database, or in its directory. -/
def Unobstructed (cfg : ServerConfig) (n : ByteString) (t : DataDirectory) : Prop :=
  ∀ p, (p <+: components cfg.dataDir ++ [n] ∨ ∃ x, p = components cfg.dataDir ++ [n] ++ [x]) →
    Entry.isFile (t p) = false

theorem Unobstructed.clear (h : Unobstructed cfg n t) {path : ByteString} {sub : List ByteString}
    (hpath : components path = components cfg.dataDir ++ [n] ++ sub) (hlen : sub.length ≤ 1)
    (p : List ByteString) (hp : p <+: components path) : Entry.isFile (t p) = false := by
  rw [hpath] at hp
  match sub with
  | [] => exact h p (.inl (by simpa using hp))
  | [x] => exact h p ((List.prefix_concat_iff.mp hp).symm.imp_right fun heq => ⟨x, heq⟩)

theorem Unobstructed.makeDirs (h : Unobstructed cfg n t) :
    Unobstructed cfg n (makeDirs path t) := fun p hp => makeDirs_isFile (h p hp)

theorem makeDirs_database (h : Separated cfg existing t) (hn : n ∈ existing)
    (hpath : components cfg.dataDir ++ [n] <+: path) : Separated cfg existing (makeDirs path t) :=
  h.makeDirs fun _ _ hm => eq_of_below hm hpath ▸ hn

/-- A directory in the directory of a database is made without fail. -/
theorem ensureDir_database {x : ByteString} (hfree : cfg.Free n) (hvalid : isValidName n = true)
    (hx : components x = [x]) (hn : n ∈ existing) (h : Separated cfg existing t)
    (hclear : Unobstructed cfg n t) :
    ∃ t', ensureDir (databasePath cfg.dataDir n ++ separator :: x) t = (.ok (), t') ∧
      Separated cfg existing t' ∧ Unobstructed cfg n t' := by
  have hpath := components_subdir cfg.dataDir_text hfree.plain hvalid x
  exact ⟨_, ensureDir_of_clear (hclear.clear hpath (by simp [hx])),
    makeDirs_database h hn (hpath ▸ List.prefix_append _ _), hclear.makeDirs⟩

theorem databaseExists_iff (hn : PlainName n) (hvalid : isValidName n = true) :
    databaseExists cfg.dataDir n t = true ↔ t (components cfg.dataDir ++ [n]) = some .directory := by
  rw [← components_databasePath cfg.dataDir_text hn hvalid]
  exact decide_eq_true_iff

theorem createDatabase_cases (hfree : cfg.Free n) (h : Separated cfg existing t) :
    ((createDatabase cfg.dataDir n t).1 = .ok () ∧
        Separated cfg (insert n existing) (createDatabase cfg.dataDir n t).2) ∨
      ∃ e, (createDatabase cfg.dataDir n t).1 = .error e ∧
        (e.code = .kAlreadyExists → n ∈ existing) ∧
        Separated cfg existing (createDatabase cfg.dataDir n t).2 := by
  simp only [CatalogManager.createDatabase, DirStore.ensureDir]
  cases hname : validateDatabaseName n with
  | error e =>
    rw [bind_error (ofExcept_apply _ t)]
    refine .inr ⟨e, rfl, fun hcode => ?_, h⟩
    rw [validateDatabaseName] at hname
    split_ifs at hname
    cases hname
    cases hcode
  | ok u =>
    have hvalid := isValidName_of_databaseName hname
    rw [ofExcept_bind rfl]
    rcases ensureDir_cases cfg.dataDir t with hroot | ⟨hroot, -⟩
    · rw [bind_error hroot]
      exact .inr ⟨_, rfl, (fun hcode => by cases hcode), h⟩
    set t₁ := makeDirs (components cfg.dataDir) t with ht₁
    have hsep : Separated cfg existing t₁ :=
      h.makeDirs fun m _ hpre => absurd hpre (not_prefix_self _ m)
    have hpath := components_databasePath cfg.dataDir_text hfree.plain hvalid
    rw [bind_ok hroot, read_bind]
    split_ifs with hdir
    all_goals rw [databaseExists_iff hfree.plain hvalid] at hdir
    · exact .inr ⟨_, rfl, fun _ => hsep.exists_of n hfree hdir, hsep⟩
    · rcases ensureDir_cases (databasePath cfg.dataDir n) t₁ with hdb | ⟨hdb, hclear⟩
      · rw [bind_error hdb]
        exact .inr ⟨_, rfl, (fun hcode => by cases hcode), hsep⟩
      rw [hpath] at hdb hclear
      -- nothing lies below a path that is not a directory
      have hfree₁ : Unobstructed cfg n t₁ := by
        rintro p (hp | ⟨x, rfl⟩)
        · exact hclear p hp
        · by_contra hfile
          exact hdir (hsep.closed _ x fun hnone => hfile (by rw [hnone]; rfl))
      have hn : n ∈ insert n existing := Finset.mem_insert_self n existing
      have hsep₂ := makeDirs_database (hsep.mono (Finset.subset_insert n existing)) hn
        (List.prefix_refl (components cfg.dataDir ++ [n]))
      obtain ⟨t₃, hcatalog, hsep₃, hfree₃⟩ := ensureDir_database (x := ascii "catalog") hfree hvalid
        (by decide) hn hsep₂ hfree₁.makeDirs
      obtain ⟨t₄, htables, hsep₄, hfree₄⟩ := ensureDir_database (x := ascii "tables") hfree hvalid
        (by decide) hn hsep₃ hfree₃
      obtain ⟨t₅, hindexes, hsep₅, hfree₅⟩ := ensureDir_database (x := ascii "indexes") hfree hvalid
        (by decide) hn hsep₄ hfree₄
      obtain ⟨t₆, hversions, hsep₆, -⟩ := ensureDir_database (x := ascii "versions") hfree hvalid
        (by decide) hn hsep₅ hfree₅
      rw [bind_ok hdb,
        bind_ok (show ensureDir (catalogDirPath cfg.dataDir n) _ = _ from hcatalog),
        bind_ok (show ensureDir (tablesDirPath cfg.dataDir n) _ = _ from htables),
        bind_ok (show ensureDir (indexesDirPath cfg.dataDir n) _ = _ from hindexes),
        show ensureDir (versionsDirPath cfg.dataDir n) _ = _ from hversions]
      exact .inl ⟨rfl, hsep₆⟩

theorem removeAll_database (hn : PlainName n) (hvalid : isValidName n = true) (t : DataDirectory) :
    removeAll (databasePath cfg.dataDir n) t =
      (.ok (), fun p => if components cfg.dataDir ++ [n] <+: p then none else t p) := by
  have hdot : endsInDot (databasePath cfg.dataDir n) = false :=
    not_endsInDot hn hvalid cfg.dataDir_text
  rw [removeAll, bind_ok (modify_apply _ _), components_databasePath cfg.dataDir_text hn hvalid, hdot]
  simp

theorem dropDatabase_cases (hfree : cfg.Free n) (t : DataDirectory) :
    (∃ e, dropDatabase cfg.dataDir n t = (.error e, t)) ∨
      (t (components cfg.dataDir ++ [n]) = some .directory ∧
        dropDatabase cfg.dataDir n t =
          (.ok (), fun p => if components cfg.dataDir ++ [n] <+: p then none else t p)) := by
  simp only [CatalogManager.dropDatabase, DirStore.removeAll]
  cases hname : validateDatabaseName n with
  | error e =>
    rw [bind_error (ofExcept_apply _ t)]
    exact .inl ⟨e, rfl⟩
  | ok u =>
    have hvalid := isValidName_of_databaseName hname
    rw [ofExcept_bind rfl, read_bind]
    split_ifs with hdir
    · exact .inl ⟨_, rfl⟩
    · exact .inr ⟨(databaseExists_iff hfree.plain hvalid).mp (by simpa using hdir),
        removeAll_database hfree.plain hvalid t⟩

theorem Separated.remove (h : Separated cfg existing t) (n : ByteString) :
    Separated cfg (existing.erase n)
      fun p => if components cfg.dataDir ++ [n] <+: p then none else t p where
  closed p name hne := by
    split_ifs at hne with hpre
    · exact absurd rfl hne
    · have hp : ¬ components cfg.dataDir ++ [n] <+: p := fun hp =>
        hpre (hp.trans (List.prefix_append _ _))
      rw [if_neg hp]
      exact h.closed p name hne
  exists_of m hfree hdir := by
    split_ifs at hdir with hpre
    have hne : m ≠ n := by
      rintro rfl
      exact hpre (List.prefix_refl _)
    exact Finset.mem_erase.mpr ⟨hne, h.exists_of m hfree hdir⟩
  owner m p name o hfree hp hfile := by
    split_ifs at hfile
    exact h.owner m p name o hfree hp hfile

theorem Place.dir_text (cfg : ServerConfig) (place : Place) : 0 ∉ place.dir cfg := by
  cases place with
  | logs => exact cfg.logDir_text
  | tasks => exact cfg.taskQueueDir_text
  | data => exact cfg.dataDir_text

theorem ServerConfig.Free.not_below (hfree : cfg.Free n) (place : Place) :
    ¬ components cfg.dataDir ++ [n] <+: components (place.dir cfg) := by
  cases place with
  | logs => exact hfree.logs
  | tasks => exact hfree.tasks
  | data => exact not_prefix_self _ n

theorem prefix_of_serverFile {place : Place} {name last : ByteString}
    (hname : separator ∉ name) (h : components (joinPath (place.dir cfg) name) = p ++ [last]) :
    p <+: components (place.dir cfg) := by
  rw [components_joinPath (place.dir_text cfg)] at h
  have hlen := congrArg List.length h
  have hle := length_components_le hname
  simp only [List.length_append, List.length_singleton] at hlen
  have hdir : components (place.dir cfg) <+: p ++ [last] := h ▸ List.prefix_append _ _
  exact List.prefix_of_prefix_length_le (List.prefix_append p [last]) hdir (by omega)

theorem start_keeps : Keeps (Separated cfg existing) (start cfg) fun _ => True := by
  have hplace (place : Place) :
      Keeps (Separated cfg existing) (ensureDir (place.dir cfg)) fun _ => True :=
    ensureDir_keeps fun n hfree hpre => absurd hpre (hfree.not_below place)
  exact (hplace .logs).bind fun _ _ => (hplace .data).bind fun _ _ => hplace .tasks

theorem findDatabase_ok (h : t.findDatabase cfg.dataDir n tbl part = .ok ()) :
    isValidName n = true ∧ databaseExists cfg.dataDir n t = true := by
  obtain ⟨_, hname, h⟩ := except_bind_eq_ok.mp h
  obtain ⟨_, -, h⟩ := except_bind_eq_ok.mp h
  obtain ⟨_, -, h⟩ := except_bind_eq_ok.mp h
  refine ⟨isValidName_of_databaseName hname, ?_⟩
  split_ifs at h with hdir
  simpa using hdir

theorem writeTableFile_keeps (hfree : cfg.Free n) :
    Keeps (Separated cfg existing) (writeTableFile cfg.dataDir n tbl part)
      fun _ => True := by
  refine Keeps.bind Keeps.read fun t ht => ?_
  refine Keeps.bind (Q := fun _ => isValidName n = true ∧ n ∈ existing)
    (Keeps.ofExcept fun _ hfind => ?_) fun _ hfound => ?_
  · obtain ⟨hvalid, hdir⟩ := findDatabase_ok hfind
    exact ⟨hvalid, ht.exists_of n hfree ((databaseExists_iff hfree.plain hvalid).mp hdir)⟩
  · obtain ⟨hvalid, hn⟩ := hfound
    have hdir := prefix_dir cfg.dataDir_text hfree.plain hvalid tbl part
    have hpath := prefix_path cfg.dataDir_text hfree.plain hvalid tbl part
    refine (ensureDir_keeps fun m _ hm => eq_of_below hm hdir ▸ hn).bind fun _ _ => ?_
    refine Keeps.modify fun u hu => hu.writeFile fun m p name _ hm heq => ?_
    rw [heq] at hpath
    rw [eq_of_below (hm.trans (List.prefix_append _ _)) hpath]

theorem removeTableFile_keeps :
    Keeps (Separated cfg existing) (removeTableFile cfg.dataDir n tbl part)
      fun _ => True := by
  refine Keeps.bind Keeps.read fun t _ => ?_
  refine Keeps.bind (Q := fun _ => True) (Keeps.ofExcept fun _ _ => trivial) ?_
  exact fun _ _ => Keeps.modify fun u hu => hu.removeFile

/-- An event about a free name is lawful and keeps the databases apart. -/
theorem step_lawful {s : Run} {e : Event} (hfree : ∀ n, e.databaseName = some n → cfg.Free n)
    (h : Separated cfg s.existing s.entries) :
    Lawful cfg s e ∧ Separated cfg (step cfg s e).2.existing (step cfg s e).2.entries := by
  cases e with
  | start => exact ⟨trivial, (start_keeps s.entries h).1⟩
  | writeServerFile place name hname =>
    refine ⟨trivial, h.writeFile fun n p last hn hpre heq => ?_⟩
    exact absurd (hpre.trans (prefix_of_serverFile hname heq)) (hn.not_below place)
  | removeServerFile place name hname => exact ⟨trivial, h.removeFile⟩
  | writeTableFile n tbl part =>
    exact ⟨trivial, (writeTableFile_keeps (hfree n rfl) s.entries h).1⟩
  | removeTableFile n tbl part => exact ⟨trivial, (removeTableFile_keeps s.entries h).1⟩
  | createDatabase n =>
    rcases createDatabase_cases (hfree n rfl) h with ⟨hok, hsep⟩ | ⟨e, herror, hcode, hsep⟩
    · refine ⟨fun message hrefused => ?_, ?_⟩
      · rw [step, call, hok] at hrefused
        cases hrefused
      · rw [step, call, hok]
        exact hsep
    · refine ⟨fun message hrefused => ?_, ?_⟩
      · rw [step, call, herror] at hrefused
        cases hrefused
        exact hcode rfl
      · rw [step, call, herror]
        exact hsep
  | dropDatabase n =>
    rcases dropDatabase_cases (hfree n rfl) s.entries with ⟨e, herror⟩ | ⟨hdir, hok⟩
    · refine ⟨⟨fun hdropped => ?_, fun p owner hfile hgone => ?_⟩, ?_⟩
      · rw [step, call, herror] at hdropped
        cases hdropped
      · rw [step, call, herror, hfile] at hgone
        cases hgone
      · rw [step, call, herror]
        exact h
    · refine ⟨⟨fun _ => h.exists_of n (hfree n rfl) hdir, fun p owner hfile hgone => ?_⟩, ?_⟩
      · rw [step, call, hok] at hgone
        change (if components cfg.dataDir ++ [n] <+: p then none else s.entries p) = none at hgone
        split_ifs at hgone with hpre
        · -- the directory itself is no file
          rcases List.eq_nil_or_concat' p with rfl | ⟨front, last, rfl⟩
          · simpa using hpre.length_le
          · rcases List.prefix_concat_iff.mp hpre with heq | hfront
            · rw [← heq, hdir] at hfile
              cases hfile
            · exact h.owner n front last owner (hfree n rfl) hfront hfile
        · rw [hfile] at hgone
          cases hgone
      · rw [step, call, hok]
        exact h.remove n

theorem separated_initial : Separated cfg initial.existing initial.entries :=
  ⟨fun _ _ h => absurd rfl h, nofun, nofun⟩

/-! ## The databases of a server and of a disk -/

/-- The same databases as on a disk, and no file where one would be. -/
def SameDatabases (cfg : ServerConfig) (t : DataDirectory) (d : Disk) : Prop :=
  ∀ n, PlainName n → isValidName n = true →
    databaseExists cfg.dataDir n t = databaseExists cfg.dataDir n d ∧ Unobstructed cfg n t

theorem within_databasePath {rootDir path rest : ByteString} (hm : isValidName m = true)
    (hn : isValidName n = true)
    (hpath : path ++ [separator] = databasePath rootDir n ++ separator :: rest) :
    FileSystem.within separator (databasePath rootDir m) path = true ↔ m = n := by
  rw [FileSystem.within_iff, hpath]
  constructor
  · rintro ⟨later, heq⟩
    simp only [databasePath, List.append_assoc, List.append_right_inj, List.singleton_append] at heq
    have hsepm := CatalogFiles.isValidName_separator hm
    have hsepn := CatalogFiles.isValidName_separator hn
    rcases List.append_eq_append_iff.mp heq with ⟨c, rfl, hc⟩ | ⟨c, rfl, hc⟩ <;> cases c <;> simp_all
  · rintro rfl
    exact ⟨rest, by simp⟩

/-- A directory is made here as on a disk if it makes the same databases. -/
theorem ensureDir_tracks {path : ByteString}
    (hclear : ∀ t d, SameDatabases cfg t d → ∀ p, p <+: components path → Entry.isFile (t p) = false)
    (hpath : ∀ m, PlainName m → isValidName m = true →
      (components cfg.dataDir ++ [m] <+: components path ↔
        FileSystem.within separator (databasePath cfg.dataDir m) path = true)) :
    Tracks (SameDatabases cfg) (ensureDir path) (Disk.ensureDir path) := by
  intro t d h
  rw [ensureDir_of_clear (hclear t d h)]
  refine ⟨rfl, fun m hm hvalid => ⟨?_, (h m hm hvalid).2.makeDirs⟩⟩
  have hold := (h m hm hvalid).1
  rw [Bool.eq_iff_iff, databaseExists_iff hm hvalid] at hold ⊢
  change DataDirectory.makeDirs _ _ _ = _ ↔ (databaseExists cfg.dataDir m d || _) = true
  rw [makeDirs, Bool.or_eq_true, ← hpath m hm hvalid, ← hold]
  split_ifs with hp <;> simp [hp]

section

variable (hn : PlainName n) (hvalid : isValidName n = true)
include hn hvalid

theorem ensureDir_below_tracks {path rest : ByteString} (sub : List ByteString)
    (hrest : path ++ [separator] = databasePath cfg.dataDir n ++ separator :: rest)
    (hsub : components path = components cfg.dataDir ++ [n] ++ sub) (hlen : sub.length ≤ 1) :
    Tracks (SameDatabases cfg) (ensureDir path) (Disk.ensureDir path) := by
  have hpre : components cfg.dataDir ++ [n] <+: components path := hsub ▸ List.prefix_append _ _
  refine ensureDir_tracks (fun t d h => (h n hn hvalid).2.clear hsub hlen) fun m _ hm => ?_
  rw [within_databasePath hm hvalid hrest]
  refine ⟨fun h => eq_of_below h hpre, ?_⟩
  rintro rfl
  exact hpre

theorem sameDirs_disk : SameDirs (SameDatabases cfg) cfg.dataDir n where
  isDir t d h := (h n hn hvalid).1
  ensureDir path hmem := by
    have hbelow (x : ByteString) (hx : components x = [x]) :
        Tracks (SameDatabases cfg) (ensureDir (databasePath cfg.dataDir n ++ separator :: x))
          (Disk.ensureDir (databasePath cfg.dataDir n ++ separator :: x)) :=
      ensureDir_below_tracks hn hvalid _ (List.append_assoc ..)
        (components_subdir cfg.dataDir_text hn hvalid x) (by simp [hx])
    simp only [List.mem_cons, List.not_mem_nil, or_false] at hmem
    rcases hmem with rfl | rfl | rfl | rfl | rfl | rfl
    · refine ensureDir_tracks (fun t d h p hp => (h n hn hvalid).2 p
        (.inl (hp.trans (List.prefix_append _ _)))) fun m _ _ => ?_
      refine iff_of_false (not_prefix_self _ m) fun hw => ?_
      have hlen := (FileSystem.within_iff.mp hw).length_le
      simp [databasePath, show (ascii "/").length = 1 from rfl] at hlen
    · exact ensureDir_below_tracks hn hvalid [] rfl
        (by simpa using components_databasePath cfg.dataDir_text hn hvalid) (by simp)
    · exact hbelow (ascii "catalog") (by decide)
    · exact hbelow (ascii "tables") (by decide)
    · exact hbelow (ascii "indexes") (by decide)
    · exact hbelow (ascii "versions") (by decide)
  removeAll := by
    intro t d h
    rw [show DirStore.removeAll (databasePath cfg.dataDir n) t = _ from
      removeAll_database hn hvalid t]
    refine ⟨rfl, fun m hm hvalid' => ⟨?_, fun p hp => ?_⟩⟩
    · have hold := (h m hm hvalid').1
      rw [Bool.eq_iff_iff, databaseExists_iff hm hvalid'] at hold ⊢
      change _ ↔ (databaseExists cfg.dataDir m d && !_) = true
      rw [Bool.and_eq_true, ← hold, Bool.not_eq_true', ← Bool.not_eq_true,
        within_databasePath hvalid hvalid' rfl]
      by_cases heq : n = m
      · simp [heq]
      · have hpre : ¬ components cfg.dataDir ++ [n] <+: components cfg.dataDir ++ [m] := fun hpre =>
          heq (eq_of_below hpre (List.prefix_refl _))
        simp [hpre, heq]
    · dsimp only
      split_ifs
      · rfl
      · exact (h m hm hvalid').2 p hp

end

/-- A server and an engine start with the same databases, and they create and drop databases
with the same answers. -/
theorem databases_as_on_disk :
    SameDatabases cfg initial.entries .empty ∧ ∀ n, PlainName n →
      Tracks (SameDatabases cfg) (createDatabase cfg.dataDir n) (createDatabase cfg.dataDir n) ∧
      Tracks (SameDatabases cfg) (dropDatabase cfg.dataDir n) (dropDatabase cfg.dataDir n) := by
  refine ⟨fun _ _ _ => ⟨rfl, fun _ _ => rfl⟩, fun n hn => ⟨?_, ?_⟩⟩
  · exact createDatabase_tracks fun h => sameDirs_disk hn (isValidName_of_databaseName h)
  · exact dropDatabase_tracks fun h => sameDirs_disk hn (isValidName_of_databaseName h)

end Calls

/-- In a run whose databases have free names, only databases are dropped and only their
files are removed. -/
theorem databases_stay_apart (cfg : ServerConfig) (events : List Event)
    (h : ∀ e ∈ events, ∀ n, e.databaseName = some n → cfg.Free n) :
    Along (step cfg) (Lawful cfg) initial events := by
  have hfree : Along (step cfg) (fun _ e => ∀ n, e.databaseName = some n → cfg.Free n) initial
      events := Along.of_forall_mem h
  exact Along.imp (I := fun s => Separated cfg s.existing s.entries)
    (fun s e hs he => step_lawful he hs) separated_initial hfree

/-- The server with the option `--data data`. -/
def plainServer : ServerConfig := .ofData (ascii "data") (by decide)

/-- A database is created, gets a table and is dropped, while the server writes its log. -/
def shopEvents : List Event :=
  [.start, .writeServerFile .logs (ascii "server.log") (by decide),
    .createDatabase (ascii "shop"), .writeTableFile (ascii "shop") (ascii "t") .descriptor,
    .dropDatabase (ascii "shop"), .dropDatabase (ascii "shop")]

theorem databases_stay_apart_shop :
    Along (step plainServer) (Lawful plainServer) initial shopEvents ∧
      (trace (step plainServer) initial shopEvents).map (fun answer => answer.2.toOption.isSome) =
        [true, true, true, true, true, false] := by
  refine ⟨databases_stay_apart plainServer shopEvents fun e he n hn => ?_, by decide +kernel⟩
  have hname : n = ascii "shop" := by
    revert e
    simp [shopEvents, Event.databaseName, eq_comm]
  subst hname
  exact ⟨⟨by decide, by decide⟩, by decide, by decide⟩

/-- The directory of the logs can be dropped like a database. -/
theorem drop_takes_server_logs :
    let s := finalState (step plainServer) initial
      [.start, .writeServerFile .logs (ascii "server.log") (by decide)]
    (step plainServer s (.dropDatabase (ascii "logs"))).1 = .ok () ∧
      ascii "logs" ∉ s.existing ∧
      s.entries [ascii "data", ascii "logs", ascii "server.log"] = some (.file .server) ∧
      (step plainServer s (.dropDatabase (ascii "logs"))).2.entries
        [ascii "data", ascii "logs", ascii "server.log"] = none := by
  decide +kernel

end DataDirectory

end CourseDb

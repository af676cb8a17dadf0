import CourseDb.Common.Text

/-! # The log files

A log is a current file and the rotated files `path.1`, `path.2` and so on. A
line is appended to the current file, which is rotated first if it has grown to
its maximal size. File operations succeed, and a renamed file replaces the one
that has its new name. A history keeps all segments that have been rotated; the
files hold the newest of them: one segment fewer than `log_max_files` says,
except if it says one.
-/

namespace CourseDb

abbrev LogFiles := ByteString → Option ByteString

namespace LogFiles

def remove (path : ByteString) (files : LogFiles) : LogFiles := Function.update files path none

/-- Renaming a file that does not exist has no effect. -/
def rename (old new : ByteString) (files : LogFiles) : LogFiles :=
  if (files old).isSome then Function.update (files.remove old) new (files old) else files

/-- Append to a file, which is created if it does not exist. -/
def append (path bytes : ByteString) (files : LogFiles) : LogFiles :=
  Function.update files path (some ((files path).getD [] ++ bytes))

end LogFiles

structure LogEntry where
  isAccess : Bool
  jsonLine : ByteString

/-- The settings of the logger; `log_max_files` is a `std::size_t`. -/
structure Logger where
  logDir : ByteString
  maxBytes : ℕ := 32 * 1024 * 1024
  maxFiles : UInt64 := 5

namespace Logger

/-- The `operator/` of paths. -/
def join (dir name : ByteString) : ByteString :=
  if dir = [] ∨ dir.getLast? = some 47 then dir ++ name else dir ++ 47 :: name

def serverLogPath (logger : Logger) : ByteString := join logger.logDir (ascii "server.log")

def accessLogPath (logger : Logger) : ByteString := join logger.logDir (ascii "access.log")

def rotatedPath (path : ByteString) (i : ℕ) : ByteString := path ++ 46 :: ascii (toString i)

/-- One round of the loop of `MaybeRotate`. -/
def shiftOne (maxFiles : UInt64) (path : ByteString) (i : ℕ) (files : LogFiles) : LogFiles :=
  if (files (rotatedPath path i)).isSome then
    if i + 1 ≥ maxFiles.toNat then
      files.remove (rotatedPath path i)
    else
      files.rename (rotatedPath path i) (rotatedPath path (i + 1))
  else
    files

/-- The loop of `MaybeRotate`, from `i` down to 1. -/
def shift (maxFiles : UInt64) (path : ByteString) : ℕ → LogFiles → LogFiles
  | 0, files => files
  | i + 1, files => shift maxFiles path i (shiftOne maxFiles path (i + 1) files)

def maybeRotate (logger : Logger) (path : ByteString) (files : LogFiles) : LogFiles :=
  match files path with
  | none => files
  | some content =>
    if content.length < logger.maxBytes then
      files
    else
      (shift logger.maxFiles path (logger.maxFiles - 1).toNat files).rename path (rotatedPath path 1)

def writeToFile (logger : Logger) (path line : ByteString) (files : LogFiles) : LogFiles :=
  (logger.maybeRotate path files).append path (line ++ [10])

def pathOf (logger : Logger) (isAccess : Bool) : ByteString :=
  if isAccess then logger.accessLogPath else logger.serverLogPath

/-- What `WriterLoop` does with an entry of the queue; an empty one is a flush. -/
def writeEntry (logger : Logger) (files : LogFiles) (entry : LogEntry) : LogFiles :=
  if entry.jsonLine = [] then files
  else logger.writeToFile (logger.pathOf entry.isAccess) entry.jsonLine files

def writeAll (logger : Logger) (files : LogFiles) (entries : List LogEntry) : LogFiles :=
  entries.foldl logger.writeEntry files

end Logger

end CourseDb

namespace CourseDb.Logger

variable {logger : Logger} {files : LogFiles} {path p : ByteString} {i j : ℕ} {n : UInt64}

theorem rotatedPath_injective (h : rotatedPath path i = rotatedPath path j) : i = j := by
  have hdigits : ascii (toString i) = ascii (toString j) :=
    (List.cons.inj (List.append_cancel_left h)).2
  exact ascii_toString_injective hdigits

theorem rotatedPath_ne (path : ByteString) (i : ℕ) : rotatedPath path i ≠ path := by
  intro h
  have hlength := congrArg List.length h
  simp [rotatedPath] at hlength

def Names (path p : ByteString) : Prop := p = path ∨ ∃ i, p = rotatedPath path i

theorem Names.isPrefix (h : Names path p) : path <+: p := by
  rcases h with rfl | ⟨i, rfl⟩
  · exact List.prefix_rfl
  · exact List.prefix_append _ _

/-- The two logs have no path in common. -/
theorem Names.unique {a b : Bool} (ha : Names (logger.pathOf a) p) (hb : Names (logger.pathOf b) p) :
    a = b := by
  by_contra hne
  have hlength : (logger.pathOf a).length = (logger.pathOf b).length := by
    cases a <;> cases b <;> simp [pathOf, accessLogPath, serverLogPath, join, ascii] <;>
      split_ifs <;> simp
  have hpath : logger.pathOf a = logger.pathOf b :=
    (List.prefix_of_prefix_length_le ha.isPrefix hb.isPrefix hlength.le).eq_of_length hlength
  have hne' : serverLogPath logger ≠ accessLogPath logger := by
    unfold serverLogPath accessLogPath join
    split_ifs
    · exact fun h => absurd (List.append_cancel_left h) (by decide)
    · exact fun h => absurd (List.append_cancel_left h) (by decide)
  cases a <;> cases b
  · exact hne rfl
  · exact hne' hpath
  · exact hne' hpath.symm
  · exact hne rfl

theorem rename_of_some {old new content : ByteString} (h : files old = some content) (p : ByteString) :
    files.rename old new p =
      if p = new then some content else if p = old then none else files p := by
  rw [LogFiles.rename, if_pos (by simp [h]), h, LogFiles.remove]
  simp only [Function.update_apply]

theorem rename_of_free {old new : ByteString} (h : files new = none) (p : ByteString) :
    files.rename old new p = if p = new then files old else if p = old then none else files p := by
  cases hold : files old with
  | some content => exact rename_of_some hold p
  | none =>
    rw [LogFiles.rename, if_neg (by simp [hold])]
    split_ifs with hnew hp
    · rw [hnew, h]
    · rw [hp, hold]
    · rfl

theorem shiftOne_rename (hi : i + 1 < n.toNat) (h : files (rotatedPath path (i + 1)) = none)
    (j : ℕ) :
    shiftOne n path i files (rotatedPath path j) =
      if j = i + 1 then files (rotatedPath path i)
      else if j = i then none else files (rotatedPath path j) := by
  have hrename : shiftOne n path i files =
      files.rename (rotatedPath path i) (rotatedPath path (i + 1)) := by
    unfold shiftOne LogFiles.rename
    split_ifs
    · omega
    · rfl
    · rfl
  rw [hrename, rename_of_free h]
  have hpath (k : ℕ) : rotatedPath path j = rotatedPath path k ↔ j = k :=
    ⟨rotatedPath_injective, fun hjk => by rw [hjk]⟩
  simp only [hpath]

theorem shiftOne_remove (hi : n.toNat ≤ i + 1) (j : ℕ) :
    shiftOne n path i files (rotatedPath path j) =
      if j = i then none else files (rotatedPath path j) := by
  unfold shiftOne
  rw [if_pos hi]
  by_cases hj : j = i
  · subst hj
    rw [if_pos rfl]
    split_ifs with hsome
    · exact Function.update_self _ _ _
    · exact Option.not_isSome_iff_eq_none.mp hsome
  · have hne : rotatedPath path j ≠ rotatedPath path i := fun h => hj (rotatedPath_injective h)
    rw [if_neg hj]
    split_ifs
    · exact Function.update_of_ne hne _ _
    · rfl

/-- The loop over the files that move up: each takes the place of the next one. -/
theorem shift_rename (hi : i + 1 < n.toNat) (h : files (rotatedPath path (i + 1)) = none) (j : ℕ) :
    shift n path i files (rotatedPath path j) =
      if j = 1 then none
      else if 1 < j ∧ j ≤ i + 1 then files (rotatedPath path (j - 1))
      else files (rotatedPath path j) := by
  induction i generalizing files with
  | zero =>
    rw [shift]
    split_ifs with hone hrange
    · rw [hone, h]
    · omega
    · rfl
  | succ i ih =>
    have hmoved := shiftOne_rename hi h
    have hvacant : shiftOne n path (i + 1) files (rotatedPath path (i + 1)) = none := by
      rw [hmoved, if_neg (by omega), if_pos rfl]
    rw [shift, ih (by omega) hvacant]
    by_cases hone : j = 1
    · rw [if_pos hone, if_pos hone]
    rw [if_neg hone, if_neg hone, hmoved, hmoved]
    by_cases hlow : 1 < j ∧ j ≤ i + 1
    · rw [if_pos hlow, if_neg (by omega), if_neg (by omega), if_pos (by omega)]
    rw [if_neg hlow]
    by_cases htop : j = i + 1 + 1
    · rw [if_pos htop, if_pos (by omega), htop]
      rfl
    · rw [if_neg htop, if_neg (by omega), if_neg (by omega)]

/-- The whole loop of `MaybeRotate`: the files move up, and the last one is gone. -/
theorem shift_apply (hn : 2 ≤ n.toNat) (j : ℕ) :
    shift n path (n.toNat - 1) files (rotatedPath path j) =
      if j = 1 then none
      else if 1 < j ∧ j < n.toNat then files (rotatedPath path (j - 1))
      else files (rotatedPath path j) := by
  obtain ⟨top, htop⟩ : ∃ top, n.toNat = top + 2 := ⟨n.toNat - 2, by omega⟩
  have hremoved : ∀ k, shiftOne n path (top + 1) files (rotatedPath path k) =
      if k = top + 1 then none else files (rotatedPath path k) := shiftOne_remove (by omega)
  have hvacant : shiftOne n path (top + 1) files (rotatedPath path (top + 1)) = none := by
    rw [hremoved, if_pos rfl]
  rw [htop, show top + 2 - 1 = top + 1 from rfl, shift, shift_rename (by omega) hvacant]
  by_cases hone : j = 1
  · rw [if_pos hone, if_pos hone]
  rw [if_neg hone, if_neg hone, hremoved, hremoved]
  by_cases hrange : 1 < j ∧ j < top + 2
  · rw [if_pos hrange, if_pos (by omega), if_neg (by omega)]
  · rw [if_neg hrange, if_neg (by omega), if_neg (by omega)]

theorem shift_apply_of_ne_one (hn : 1 ≤ n.toNat) (hj : j ≠ 1) :
    shift n path (n.toNat - 1) files (rotatedPath path j) =
      if 1 < j ∧ j < n.toNat then files (rotatedPath path (j - 1))
      else files (rotatedPath path j) := by
  rcases Nat.lt_or_eq_of_le hn with htwo | hsingle
  · rw [shift_apply htwo, if_neg hj]
  · rw [← hsingle, if_neg (by omega)]
    rfl

theorem shift_of_ne (i : ℕ) (h : ∀ j, p ≠ rotatedPath path j) :
    shift n path i files p = files p := by
  induction i generalizing files with
  | zero => rfl
  | succ i ih =>
    rw [shift, ih]
    unfold shiftOne LogFiles.rename LogFiles.remove
    split_ifs
    · exact Function.update_of_ne (h _) _ _
    · rw [Function.update_of_ne (h _), Function.update_of_ne (h _)]
    · rfl

/-- The segments of a log that have been rotated, the newest first, and the lines since. -/
structure LogHistory where
  rotated : List (List ByteString)
  current : List ByteString

/-- The lines as they stand in a file. -/
def bytesOf (lines : List ByteString) : ByteString := lines.flatMap fun line => line ++ [10]

/-- Write a line; a segment that has reached the maximal size is rotated first. -/
def LogHistory.write (maxBytes : ℕ) (history : LogHistory) (line : ByteString) : LogHistory :=
  if history.current ≠ [] ∧ maxBytes ≤ (bytesOf history.current).length then
    ⟨history.current :: history.rotated, [line]⟩
  else
    { history with current := history.current ++ [line] }

def segmentsOf (maxBytes : ℕ) (lines : List ByteString) : LogHistory :=
  lines.foldl (LogHistory.write maxBytes) ⟨[], []⟩

def linesOf (isAccess : Bool) (entries : List LogEntry) : List ByteString :=
  (entries.filter fun entry => entry.isAccess = isAccess ∧ entry.jsonLine ≠ []).map
    LogEntry.jsonLine

/-- The files of a log hold the current segment and `count` rotated ones. -/
structure Holds (files : LogFiles) (path : ByteString) (count : ℕ) (history : LogHistory) :
    Prop where
  rotated_eq : ∀ i, files (rotatedPath path i) =
    if i = 0 then none else (history.rotated.take count)[i - 1]?.map bytesOf
  current_eq : files path = if history.current = [] then none else some (bytesOf history.current)

/-- The rotated files are the newest `n`, and every line is in the current file, in one of them,
or in a segment that is older than all of them. -/
structure KeepsNewest (files : LogFiles) (path : ByteString) (n : ℕ) (history : LogHistory)
    (lines : List ByteString) : Prop extends Holds files path n history where
  lines_eq : lines = (history.rotated.drop n).reverse.flatten ++
    ((history.rotated.take n).reverse.flatten ++ history.current)

/-- How many rotated files the loop leaves room for. -/
def keptFiles (n : UInt64) : ℕ := if n.toNat = 1 then 1 else n.toNat - 1

section Segments

variable {history : LogHistory} {line : ByteString} {count : ℕ}

theorem bytesOf_append (lines : List ByteString) (line : ByteString) :
    bytesOf (lines ++ [line]) = bytesOf lines ++ (line ++ [10]) := by
  simp [bytesOf]

/-- No line is lost from the history. -/
theorem segmentsOf_lines (maxBytes : ℕ) (lines : List ByteString) :
    lines = (segmentsOf maxBytes lines).rotated.reverse.flatten ++
      (segmentsOf maxBytes lines).current := by
  induction lines using List.reverseRecOn with
  | nil => rfl
  | append_singleton lines line ih =>
    have hstep : segmentsOf maxBytes (lines ++ [line]) =
        (segmentsOf maxBytes lines).write maxBytes line := by
      rw [segmentsOf, List.foldl_append]
      rfl
    rw [hstep, LogHistory.write]
    split_ifs
    all_goals
      nth_rewrite 1 [ih]
      simp

theorem keptFiles_pos (hn : 1 ≤ n.toNat) : 0 < keptFiles n := by
  unfold keptFiles
  split_ifs <;> omega

/-- After the loop the rotated files are in the places that they have once a segment more
is rotated. -/
theorem Holds.shift_eq (h : Holds files path (keptFiles n) history) (hn : 1 ≤ n.toNat)
    (hone : i ≠ 1) (segment : List ByteString) :
    shift n path (n.toNat - 1) files (rotatedPath path i) =
      if i = 0 then none else ((segment :: history.rotated).take (keptFiles n))[i - 1]?.map bytesOf := by
  have hkept : keptFiles n = if n.toNat = 1 then 1 else n.toNat - 1 := rfl
  rw [shift_apply_of_ne_one hn hone]
  by_cases hrange : 1 < i ∧ i < n.toNat
  · obtain ⟨k, rfl⟩ : ∃ k, i = k + 2 := ⟨i - 2, by omega⟩
    have hlt : k + 1 < keptFiles n := by
      rw [hkept, if_neg (by omega)]
      omega
    rw [if_pos hrange, show k + 2 - 1 = k + 1 from rfl, h.rotated_eq, if_neg (by omega),
      if_neg (by omega), List.getElem?_take_of_lt (by omega), List.getElem?_take_of_lt hlt]
    rfl
  · rw [if_neg hrange, h.rotated_eq]
    by_cases hzero : i = 0
    · rw [if_pos hzero, if_pos hzero]
    · have hle : keptFiles n ≤ i - 1 := by
        rw [hkept]
        split_ifs <;> omega
      rw [if_neg hzero, if_neg hzero, List.getElem?_take_eq_none hle, List.getElem?_take_eq_none hle]

theorem Holds.rotate (h : Holds files path (keptFiles logger.maxFiles) history)
    (hn : 1 ≤ logger.maxFiles) (hcurrent : history.current ≠ [])
    (hfull : logger.maxBytes ≤ (bytesOf history.current).length) :
    Holds (logger.maybeRotate path files) path (keptFiles logger.maxFiles)
      ⟨history.current :: history.rotated, []⟩ := by
  have hn' : 1 ≤ logger.maxFiles.toNat := UInt64.le_iff_toNat_le.mp hn
  have hkept := keptFiles_pos hn'
  have hfile : files path = some (bytesOf history.current) := by
    rw [h.current_eq, if_neg hcurrent]
  have hsub : (logger.maxFiles - 1).toNat = logger.maxFiles.toNat - 1 :=
    UInt64.toNat_sub_of_le _ _ hn
  have hshifted : shift logger.maxFiles path (logger.maxFiles.toNat - 1) files path =
      some (bytesOf history.current) := by
    rw [shift_of_ne _ fun j => (rotatedPath_ne path j).symm, hfile]
  have hrotate : logger.maybeRotate path files =
      (shift logger.maxFiles path (logger.maxFiles.toNat - 1) files).rename path
        (rotatedPath path 1) := by
    unfold maybeRotate
    rw [hfile, ← hsub]
    exact if_neg (Nat.not_lt.mpr hfull)
  rw [hrotate]
  constructor
  · intro i
    rw [rename_of_some hshifted, if_neg (rotatedPath_ne path i)]
    by_cases hone : i = 1
    · rw [if_pos (by rw [hone]), hone, if_neg one_ne_zero, List.getElem?_take_of_lt hkept]
      rfl
    · rw [if_neg fun heq => hone (rotatedPath_injective heq), h.shift_eq hn' hone history.current]
  · rw [rename_of_some hshifted, if_neg (rotatedPath_ne path 1).symm, if_pos rfl, if_pos rfl]

theorem Holds.append (h : Holds files path count history) (line : ByteString) :
    Holds (files.append path (line ++ [10])) path count
      { history with current := history.current ++ [line] } := by
  constructor
  · intro i
    rw [LogFiles.append, Function.update_of_ne (rotatedPath_ne path i)]
    exact h.rotated_eq i
  · rw [LogFiles.append, Function.update_self, if_neg (by simp), bytesOf_append, h.current_eq]
    split_ifs with hempty
    · simp [hempty, bytesOf]
    · rfl

theorem Holds.write (h : Holds files path (keptFiles logger.maxFiles) history)
    (hn : 1 ≤ logger.maxFiles) (line : ByteString) :
    Holds (logger.writeToFile path line files) path (keptFiles logger.maxFiles)
      (history.write logger.maxBytes line) := by
  unfold writeToFile LogHistory.write
  split_ifs with hfull
  · exact (h.rotate hn hfull.1 hfull.2).append line
  · have hstays : logger.maybeRotate path files = files := by
      unfold maybeRotate
      rw [h.current_eq]
      by_cases hempty : history.current = []
      · rw [if_pos hempty]
      · rw [if_neg hempty]
        exact if_pos (Nat.lt_of_not_le fun hle => hfull ⟨hempty, hle⟩)
    rw [hstays]
    exact h.append line

theorem Holds.congr {files' : LogFiles} (h : Holds files path count history)
    (hsame : ∀ p, Names path p → files' p = files p) : Holds files' path count history := by
  constructor
  · intro i
    rw [hsame _ (.inr ⟨i, rfl⟩), h.rotated_eq]
  · rw [hsame _ (.inl rfl), h.current_eq]

end Segments

section Runs

variable {isAccess : Bool}

/-- A log is written without touching any other file. -/
theorem writeToFile_of_not_names (h : ¬ Names path p) (line : ByteString) :
    logger.writeToFile path line files p = files p := by
  have hpath : p ≠ path := fun heq => h (.inl heq)
  have hrotated (j : ℕ) : p ≠ rotatedPath path j := fun heq => h (.inr ⟨j, heq⟩)
  have hrotate : logger.maybeRotate path files p = files p := by
    unfold maybeRotate
    cases hcontent : files path with
    | none => rfl
    | some content =>
      dsimp only
      split_ifs
      · rfl
      · rw [rename_of_some ((shift_of_ne _ fun j => (rotatedPath_ne path j).symm).trans hcontent),
          if_neg (hrotated 1), if_neg hpath, shift_of_ne _ hrotated]
  rw [writeToFile, LogFiles.append, Function.update_of_ne hpath, hrotate]

def Fresh (files : LogFiles) (path : ByteString) : Prop := ∀ p, Names path p → files p = none

/-- Along any run, the files of each log hold its newest segments. -/
theorem writeAll_holds (hn : 1 ≤ logger.maxFiles) (hfresh : Fresh files (logger.pathOf isAccess))
    (entries : List LogEntry) :
    Holds (logger.writeAll files entries) (logger.pathOf isAccess) (keptFiles logger.maxFiles)
      (segmentsOf logger.maxBytes (linesOf isAccess entries)) := by
  induction entries using List.reverseRecOn with
  | nil =>
    constructor
    · intro i
      change files _ = _
      rw [hfresh _ (.inr ⟨i, rfl⟩)]
      simp [linesOf, segmentsOf]
    · exact hfresh _ (.inl rfl)
  | append_singleton entries entry ih =>
    have hwrite : logger.writeAll files (entries ++ [entry]) =
        logger.writeEntry (logger.writeAll files entries) entry := by
      rw [writeAll, List.foldl_append]
      rfl
    rw [hwrite, writeEntry]
    by_cases hflush : entry.jsonLine = []
    · rw [if_pos hflush]
      simpa [linesOf, hflush] using ih
    rw [if_neg hflush]
    by_cases hlog : entry.isAccess = isAccess
    · have hlines : linesOf isAccess (entries ++ [entry]) =
          linesOf isAccess entries ++ [entry.jsonLine] := by
        simp [linesOf, hflush, hlog]
      rw [hlines, segmentsOf, List.foldl_append, hlog]
      exact ih.write hn entry.jsonLine
    · have hlines : linesOf isAccess (entries ++ [entry]) = linesOf isAccess entries := by
        simp [linesOf, hlog]
      rw [hlines]
      refine ih.congr fun p hp => writeToFile_of_not_names (fun hother => hlog ?_) _
      exact hother.unique hp

/-- The files of a log keep its newest `log_max_files` segments exactly if that is one segment,
or so many have not been rotated yet. -/
theorem keepsNewest_iff (hn : 1 ≤ logger.maxFiles) (hfresh : Fresh files (logger.pathOf isAccess))
    (entries : List LogEntry) :
    KeepsNewest (logger.writeAll files entries) (logger.pathOf isAccess) logger.maxFiles.toNat
        (segmentsOf logger.maxBytes (linesOf isAccess entries)) (linesOf isAccess entries) ↔
      logger.maxFiles = 1 ∨
        (segmentsOf logger.maxBytes (linesOf isAccess entries)).rotated.length <
          logger.maxFiles.toNat := by
  have hholds := writeAll_holds hn hfresh entries
  have hlines := segmentsOf_lines logger.maxBytes (linesOf isAccess entries)
  have hn' : 1 ≤ logger.maxFiles.toNat := UInt64.le_iff_toNat_le.mp hn
  have hsingle : logger.maxFiles = 1 ↔ logger.maxFiles.toNat = 1 := UInt64.toNat_inj.symm
  generalize segmentsOf logger.maxBytes (linesOf isAccess entries) = history at *
  rw [hsingle]
  constructor
  · intro h
    by_contra! hcond
    obtain ⟨hne, hle⟩ := hcond
    -- the place of the last segment is empty
    have hlast := h.rotated_eq logger.maxFiles.toNat
    have hkept : keptFiles logger.maxFiles = logger.maxFiles.toNat - 1 := if_neg hne
    rw [hholds.rotated_eq, if_neg (by omega), if_neg (by omega), hkept,
      List.getElem?_take_eq_none le_rfl, List.getElem?_take_of_lt (by omega),
      List.getElem?_eq_getElem (by omega)] at hlast
    cases hlast
  · intro h
    have htake : history.rotated.take (keptFiles logger.maxFiles) =
        history.rotated.take logger.maxFiles.toNat := by
      unfold keptFiles
      split_ifs with hone
      · rw [hone]
      · rw [List.take_of_length_le (by omega), List.take_of_length_le (by omega)]
    refine ⟨⟨fun i => ?_, hholds.current_eq⟩, ?_⟩
    · rw [hholds.rotated_eq, htake]
    · rw [← List.append_assoc, ← List.flatten_append, ← List.reverse_append, List.take_append_drop]
      exact hlines

def shortLog : Logger := { logDir := [], maxBytes := 1, maxFiles := 3 }

def entriesOf (lines : List String) : List LogEntry := lines.map fun line => ⟨false, ascii line⟩

theorem keepsNewest_two_lines :
    KeepsNewest (shortLog.writeAll (fun _ => none) (entriesOf ["a", "b"])) (ascii "server.log") 3
      ⟨[[ascii "a"]], [ascii "b"]⟩ [ascii "a", ascii "b"] := by
  have hfresh : Fresh (fun _ => none) (shortLog.pathOf false) := fun _ _ => rfl
  refine (keepsNewest_iff (show 1 ≤ shortLog.maxFiles by decide) hfresh (entriesOf ["a", "b"])).mpr ?_
  exact .inr (by decide)

/-- Of three rotated segments only two are left, although three are to be kept. -/
theorem rotation_loses_segment :
    (segmentsOf 1 (linesOf false (entriesOf ["a", "b", "c", "d"]))).rotated =
        [[ascii "c"], [ascii "b"], [ascii "a"]] ∧
      (List.range 4).map (fun i => shortLog.writeAll (fun _ => none)
          (entriesOf ["a", "b", "c", "d"]) (rotatedPath (ascii "server.log") (i + 1))) =
        [some (ascii "c\n"), some (ascii "b\n"), none, none] := by
  decide +kernel

end Runs

end CourseDb.Logger

import CourseDb.Common.Text
import CourseDb.Lib.Conformance
import CourseDb.Versioning.VersionLog

/-! # The file of a version log

The log as a file: a header, then every record with its size in front. The
list of records that the rest of the development works with is the abstraction
of these bytes, and the calls on the file give the answers of the calls on the
list.
-/

namespace CourseDb

open Fallible (read_bind bind_apply ofExcept_apply fail ofExcept)
open Codec
open VersionLog (recordSize readable)

def VersionOp.code : VersionOp → ℕ
  | .kInsert => 0
  | .kUpdate => 1
  | .kDelete => 2

/-- The cast of a number to `VersionOp`, checked by `IsValidVersionOp`. -/
def VersionOp.ofCode : ℕ → Option VersionOp
  | 0 => some .kInsert
  | 1 => some .kUpdate
  | 2 => some .kDelete
  | _ => none

@[simp] theorem VersionOp.ofCode_code (op : VersionOp) : ofCode op.code = some op := by
  cases op <;> rfl

/-- The time stamp and the row id are values of the source's types. -/
structure VersionRecord.Representable (record : VersionRecord) : Prop where
  timestamp_ge : -2 ^ 63 ≤ record.timestampMs
  timestamp_lt : record.timestampMs < 2 ^ 63
  rid_lt : record.rid < 2 ^ 64

/-- A `VersionLog` object and the file under its path. -/
structure VersionLogFile where
  filePath : ByteString
  file : Option ByteString := none
  isOpen : Bool := false

namespace VersionLogFile

abbrev Action (α : Type) := Fallible Status VersionLogFile α

def versionLogMagic : ByteString := ascii "CDBVLOG1"

def versionLogVersion : ℕ := 1

def logHeaderSize : ℕ := versionLogMagic.length + 4

def logHeader : ByteString := versionLogMagic ++ writeUint32 versionLogVersion

def notOpen : Status := ⟨.kInternalError, "VersionLog is not open"⟩

def validateLogHeader (bytes : ByteString) : Except Status Unit :=
  let header := bytes.take logHeaderSize
  if header.length ≠ logHeaderSize then
    .error ⟨.kInvalidArgument, "Version log header is truncated"⟩
  else if header.take versionLogMagic.length ≠ versionLogMagic then
    .error ⟨.kInvalidArgument, "Invalid version log magic"⟩
  else
    match readUint32 header versionLogMagic.length with
    | .error e => .error e
    | .ok (version, _) =>
      if version ≠ versionLogVersion then
        .error ⟨.kInvalidArgument, "Unsupported version log version"⟩
      else
        .ok ()

/-- `Open`: a missing file is made with a header, an existing one is checked. -/
def openLog : Action Unit := do
  let s ← Fallible.read
  if s.isOpen then
    return
  else if s.filePath.isEmpty then
    fail ⟨.kInvalidArgument, "VersionLog file path is empty"⟩
  else
    let bytes := s.file.getD logHeader
    Fallible.modify fun s => { s with file := some bytes }
    ofExcept (validateLogHeader bytes)
    Fallible.modify fun s => { s with isOpen := true }

def flush : Action Unit := do
  let s ← Fallible.read
  if !s.isOpen then fail notOpen else return

def validateRecord (record : VersionRecord) : Except Status Unit :=
  if record.tableName.isEmpty then .error VersionLog.emptyTableName else .ok ()

def serializeRecord (record : VersionRecord) : ByteString :=
  writeInt64 (Int64.ofInt record.timestampMs) ++ (writeString record.tableName ++
    (writeUint64 record.rid ++ (writeUint32 record.op.code ++
      (serializeTuple record.before ++ serializeTuple record.after))))

/-- A record in the file, with its size in front. -/
def entry (record : VersionRecord) : ByteString :=
  writeUint32 (serializeRecord record).length ++ serializeRecord record

def append (record : VersionRecord) : Action Unit := do
  let s ← Fallible.read
  if !s.isOpen then
    fail notOpen
  else
    ofExcept (validateRecord record)
    if (serializeRecord record).length > 2 ^ 32 - 1 then
      fail VersionLog.recordTooLarge
    else
      Fallible.modify fun s => { s with file := s.file.map (· ++ entry record) }

def deserializeRecord : Reader Status VersionRecord := do
  let timestampMs ← readInt64
  let tableName ← readString
  let rid ← readUint64
  let rawOp ← readUint32
  match VersionOp.ofCode rawOp with
  | none => Reader.fail ⟨.kInvalidArgument, "Version record contains invalid operation"⟩
  | some op => do
    let before ← deserializeTuple
    let after ← deserializeTuple
    return { timestampMs := timestampMs.toInt, tableName, rid, op, before, after }

/-- The loop of `ReadAll` from the current position of the file. -/
def readRecords (rest : ByteString) : Except Status (List VersionRecord) :=
  if rest.isEmpty then
    .ok []
  else if _h : rest.length < 4 then
    .error ⟨.kInvalidArgument, "Truncated version log record size"⟩
  else
    match readUint32 (rest.take 4) 0 with
    | .error e => .error e
    | .ok (recordSize, _) =>
      let payload := (rest.drop 4).take recordSize
      if payload.length ≠ recordSize then
        .error ⟨.kInvalidArgument, "Truncated version log record payload"⟩
      else
        match deserializeRecord payload 0 with
        | .error e => .error e
        | .ok (record, offset) =>
          if offset ≠ payload.length then
            .error ⟨.kInvalidArgument, "Version log record has trailing payload bytes"⟩
          else
            (readRecords (rest.drop (4 + recordSize))).map (record :: ·)
termination_by rest.length
decreasing_by
  rw [List.length_drop]
  omega

def readAll : Action (List VersionRecord) := do
  let s ← Fallible.read
  if !s.isOpen then
    fail notOpen
  else
    ofExcept (readRecords ((s.file.getD []).drop logHeaderSize))

section Records

variable {record : VersionRecord}

theorem serializeRecord_length (record : VersionRecord) :
    (serializeRecord record).length = recordSize record := by
  simp only [serializeRecord, recordSize, List.length_append, writeInt64_length,
    writeString_length, writeUint64_length, writeUint32_length]
  omega

/-- The records that `append` accepts. -/
structure Storable (record : VersionRecord) : Prop extends record.Representable where
  size_le : recordSize record ≤ 2 ^ 32 - 1

theorem Storable.tableName_lt (h : Storable record) : record.tableName.length < 2 ^ 32 := by
  have hsize := h.size_le
  unfold recordSize at hsize
  omega

theorem Storable.before_lt (h : Storable record) : (serializeTuple record.before).length < 2 ^ 32 := by
  have hsize := h.size_le
  unfold recordSize at hsize
  omega

theorem Storable.after_lt (h : Storable record) : (serializeTuple record.after).length < 2 ^ 32 := by
  have hsize := h.size_le
  unfold recordSize at hsize
  omega

theorem Storable.timestamp_eq (h : Storable record) :
    (Int64.ofInt record.timestampMs).toInt = record.timestampMs := by
  have hge := h.timestamp_ge
  have hlt := h.timestamp_lt
  exact Int64.toInt_ofInt_of_le (by simpa using hge) (by simpa using hlt)

theorem op_code_lt (op : VersionOp) : op.code < 2 ^ 32 := by
  cases op <;> decide

theorem deserializeRecord_decodes (h : Storable record) (hr : readable record = true) :
    Decodes deserializeRecord (serializeRecord record) record := by
  simp only [readable, Bool.and_eq_true, decide_eq_true_eq] at hr
  refine (readInt64_decodes _).bind ?_
  refine (readString_decodes h.tableName_lt).bind ?_
  refine (readUint64_decodes h.rid_lt).bind ?_
  refine (readUint32_decodes (op_code_lt record.op)).bind ?_
  rw [VersionOp.ofCode_code]
  refine (deserializeTuple_decodes _ hr.1 h.before_lt).bind ?_
  refine (deserializeTuple_decodes _ hr.2 h.after_lt).map ?_
  rw [h.timestamp_eq]
  exact Decodes.pure record

theorem deserializeRecord_rejects (h : Storable record)
    (hr : readable record = false) :
    Rejects deserializeRecord (serializeRecord record) Heap.tupleTooLong := by
  have hbefore := h.before_lt
  have hafter := h.after_lt
  have hbeforeCount := tuple_length_le_size record.before
  have hafterCount := tuple_length_le_size record.after
  refine (readInt64_decodes _).bind ?_
  refine (readString_decodes h.tableName_lt).bind ?_
  refine (readUint64_decodes h.rid_lt).bind ?_
  refine (readUint32_decodes (op_code_lt record.op)).bind ?_
  rw [VersionOp.ofCode_code]
  by_cases hb : record.before.length ≤ maxTupleValues
  · have ha : maxTupleValues < record.after.length := by
      simpa [readable, hb] using hr
    refine (deserializeTuple_decodes _ hb hbefore).bind ?_
    exact Rejects.bind_left (deserializeTuple_rejects ha (by omega))
  · exact Rejects.bind_left ((deserializeTuple_rejects (by omega) (by omega)).append _)

theorem readRecords_nil : readRecords [] = .ok [] := by
  rw [readRecords]
  rfl

theorem readRecords_entry (h : Storable record) (rest : ByteString) :
    readRecords (entry record ++ rest) =
      if readable record then (readRecords rest).map (record :: ·)
      else .error Heap.tupleTooLong := by
  have hsize : (serializeRecord record).length < 2 ^ 32 := by
    have := h.size_le
    rw [serializeRecord_length]
    omega
  have hwidth : (writeUint32 (serializeRecord record).length).length = 4 := writeUint32_length _
  have hhead : readUint32 ((entry record ++ rest).take 4) 0 =
      .ok ((serializeRecord record).length, 4) := by
    have hd := readUint32_decodes hsize [] []
    rw [entry, List.append_assoc, List.take_left' hwidth]
    simpa using hd
  have htail : (entry record ++ rest).drop 4 = serializeRecord record ++ rest := by
    rw [entry, List.append_assoc, List.drop_left' hwidth]
  have hpayload : ((entry record ++ rest).drop 4).take (serializeRecord record).length =
      serializeRecord record := by
    rw [htail, List.take_left]
  have hnext : (entry record ++ rest).drop (4 + (serializeRecord record).length) = rest := by
    rw [← List.drop_drop, htail, List.drop_left]
  have hlong : ¬ (entry record ++ rest).length < 4 := by
    rw [entry, List.append_assoc, List.length_append, hwidth]
    omega
  have hne : (entry record ++ rest).isEmpty = false := by
    rw [List.isEmpty_eq_false_iff, ← List.length_pos_iff]
    omega
  rw [readRecords]
  simp only [hne, Bool.false_eq_true, if_false, hlong, dite_false, hhead, hpayload, hnext, ne_eq,
    not_true_eq_false]
  cases hr : readable record with
  | true =>
    simp [(deserializeRecord_decodes h hr).whole]
  | false =>
    simp [(deserializeRecord_rejects h hr).whole]

theorem readRecords_entries {records : List VersionRecord} (h : ∀ r ∈ records, Storable r) :
    readRecords (records.flatMap entry) =
      if records.all readable then .ok records else .error Heap.tupleTooLong := by
  induction records with
  | nil => exact readRecords_nil
  | cons record records ih =>
    obtain ⟨hrecord, hrecords⟩ := List.forall_mem_cons.mp h
    rw [List.flatMap_cons, readRecords_entry hrecord, ih hrecords, List.all_cons]
    cases readable record with
    | true =>
      cases records.all readable with
      | true => rfl
      | false => rfl
    | false => rfl

end Records

/-- The object is open on a file with these records. -/
structure Holds (s : VersionLogFile) (records : List VersionRecord) : Prop where
  path_ne : s.filePath ≠ []
  is_open : s.isOpen = true
  file_eq : s.file = some (logHeader ++ records.flatMap entry)
  storable : ∀ r ∈ records, Storable r

theorem validateLogHeader_append (rest : ByteString) :
    validateLogHeader (logHeader ++ rest) = .ok () := by
  have htake : (logHeader ++ rest).take logHeaderSize = logHeader := List.take_left' rfl
  simp only [validateLogHeader, htake]
  decide

theorem openLog_new {path : ByteString} (h : path ≠ []) :
    ∃ s, openLog { filePath := path } = (.ok (), s) ∧ s.Holds [] := by
  have hheader := validateLogHeader_append []
  rw [List.append_nil] at hheader
  refine ⟨{ filePath := path, file := some logHeader, isOpen := true }, ?_, h, rfl, ?_, ?_⟩
  · simp [openLog, h, bind, hheader]
  · simp
  · simp

variable {s : VersionLogFile} {records : List VersionRecord} {record : VersionRecord}

theorem Holds.reopen (h : s.Holds records) :
    ∃ s', openLog { s with isOpen := false } = (.ok (), s') ∧ s'.Holds records := by
  have hpath : s.filePath.isEmpty = false := by simpa using h.path_ne
  refine ⟨{ s with isOpen := true }, ?_, h.path_ne, rfl, h.file_eq, h.storable⟩
  simp [openLog, hpath, bind, h.file_eq, validateLogHeader_append]

theorem append_of_open (h : s.isOpen = true) (record : VersionRecord) :
    append record s =
      if record.tableName.isEmpty then (.error VersionLog.emptyTableName, s)
      else if recordSize record > 2 ^ 32 - 1 then (.error VersionLog.recordTooLarge, s)
      else (.ok (), { s with file := s.file.map (· ++ entry record) }) := by
  have hopen : ¬ (!s.isOpen) = true := by simp [h]
  rw [← serializeRecord_length]
  unfold append validateRecord
  rw [read_bind, if_neg hopen, bind_apply,
    ofExcept_apply]
  by_cases hname : record.tableName.isEmpty = true
  · rw [if_pos hname, if_pos hname]
  · rw [if_neg hname, if_neg hname]
    split_ifs
    · rfl
    · rfl

theorem append_tracks (hr : record.Representable) :
    Fallible.Tracks Holds (append record) (VersionLog.append record) := by
  intro s records h
  rw [append_of_open h.is_open]
  unfold VersionLog.append
  split_ifs with hname hsize
  · exact ⟨rfl, h⟩
  · exact ⟨rfl, h⟩
  · refine ⟨rfl, h.path_ne, h.is_open, ?_, ?_⟩
    · simp [h.file_eq]
    · intro r hmem
      rcases List.mem_append.mp hmem with hold | hnew
      · exact h.storable r hold
      · obtain rfl := List.mem_singleton.mp hnew
        exact ⟨hr, not_lt.mp hsize⟩

theorem readAll_tracks : Fallible.Tracks Holds readAll VersionLog.readAll := by
  intro s records h
  have hbytes : (s.file.getD []).drop logHeaderSize = records.flatMap entry := by
    rw [h.file_eq, Option.getD_some]
    exact List.drop_left' rfl
  have hfile : readAll s = (readRecords ((s.file.getD []).drop logHeaderSize), s) := by
    simp [readAll, h.is_open, bind]
  rw [hfile, hbytes, readRecords_entries h.storable]
  simp only [VersionLog.readAll, read_bind]
  split_ifs
  · exact ⟨rfl, h⟩
  · exact ⟨rfl, h⟩

section Runs

/-- What a user of the log does. `reopen` closes the object and opens the file anew. -/
inductive Step where
  | append (record : VersionRecord)
  | flush
  | readAll
  | reopen

inductive Answer where
  | status (r : Except Status Unit)
  | records (r : Except Status (List VersionRecord))

def step (s : VersionLogFile) : Step → Answer × VersionLogFile
  | .append record => (.status (append record s).1, (append record s).2)
  | .flush => (.status (flush s).1, (flush s).2)
  | .readAll => (.records (readAll s).1, (readAll s).2)
  | .reopen =>
    let r := openLog { s with isOpen := false }
    (.status r.1, r.2)

/-- The record that a step has added to the log. -/
def appendedBy : Step × Answer → Option VersionRecord
  | (.append record, .status (.ok ())) => some record
  | _ => none

/-- The records whose `append` succeeded, in order. -/
def appended (run : List (Step × Answer)) : List VersionRecord := run.filterMap appendedBy

@[simp] theorem appended_singleton (p : Step × Answer) : appended [p] = (appendedBy p).toList := by
  cases h : appendedBy p with
  | none => simp [appended, h]
  | some record => simp [appended, h]

attribute [local simp] appendedBy

theorem appended_cons (p : Step × Answer) (run : List (Step × Answer)) :
    appended (p :: run) = appended [p] ++ appended run := by
  simp only [appended, ← List.filterMap_append, List.singleton_append]

variable {op : Step} {answer : Answer}

theorem mem_of_mem_appended (h : record ∈ appended [(op, answer)]) : op = .append record := by
  cases op with
  | append r =>
    rcases answer with (e | u) | r
    · simp at h
    · simpa [eq_comm] using h
    · simp at h
  | flush => simp at h
  | readAll => simp at h
  | reopen => simp at h

/-- Every step of a user leads from a file with some records to a file with
those records and the one it has appended. -/
theorem holds_step (h : s.Holds records)
    (hop : ∀ record, op = .append record → record.Representable) :
    (step s op).2.Holds (records ++ appended [(op, (step s op).1)]) := by
  cases op with
  | append record =>
    obtain ⟨hresult, hstate⟩ := append_tracks (hop record rfl) s records h
    simp only [step, hresult]
    rcases VersionLog.append_cases record records with ⟨e, he⟩ | hok
    · rw [he] at hstate ⊢
      simpa using hstate
    · rw [hok] at hstate ⊢
      simpa using hstate
  | flush =>
    have hflush : flush s = (.ok (), s) := by simp [flush, h.is_open, bind]
    simpa [step, hflush] using h
  | readAll =>
    obtain ⟨-, hstate⟩ := readAll_tracks s records h
    rw [VersionLog.readAll_snd] at hstate
    simpa [step] using hstate
  | reopen =>
    obtain ⟨s', hopen, hs'⟩ := h.reopen
    simpa [step, hopen] using hs'

/-- Every `ReadAll` of a run returns the records from before the run and those
appended in it so far. -/
theorem readAll_answer (h : s.Holds records) (hreadable : ∀ r ∈ records, readable r)
    {steps : List Step} (hsteps : ∀ r, .append r ∈ steps → r.Representable ∧ readable r)
    {run rest : List (Step × Answer)}
    (htrace : trace step s steps = run ++ (.readAll, answer) :: rest) :
    answer = .records (.ok (records ++ appended run)) := by
  -- The records that the file holds grow with the part of the run that is passed.
  induction steps generalizing s records run with
  | nil => simp [trace] at htrace
  | cons op steps ih =>
    have hop : ∀ r, op = .append r → r.Representable ∧ readable r := by
      rintro r rfl
      exact hsteps r (by simp)
    rw [trace] at htrace
    cases run with
    | nil =>
      obtain ⟨⟨rfl, rfl⟩, -⟩ : (op = .readAll ∧ (step s op).1 = answer) ∧ _ := by
        simpa using htrace
      obtain ⟨hresult, -⟩ := readAll_tracks s records h
      have hall : records.all readable = true := List.all_eq_true.mpr hreadable
      simp [step, hresult, VersionLog.readAll, bind, hall, appended]
    | cons p run =>
      obtain ⟨rfl, htail⟩ : (op, (step s op).1) = p ∧
          trace step (step s op).2 steps = run ++ (.readAll, answer) :: rest := by
        simpa using htrace
      have hnext := ih (holds_step h fun r hr => (hop r hr).1) ?_ (fun r hr => hsteps r (by simp [hr])) htail
      · rw [hnext, appended_cons _ run, List.append_assoc]
      · intro r hr
        rcases List.mem_append.mp hr with hold | hnew
        · exact hreadable r hold
        · exact (hop r (mem_of_mem_appended hnew)).2

/-- A new version log is a faithful list: every `ReadAll` returns the records
whose `Append` has succeeded, in their order. -/
theorem new_log_faithful {path : ByteString} (hpath : path ≠ []) {steps : List Step}
    (hsteps : ∀ r, .append r ∈ steps → r.Representable ∧ r.before.length ≤ maxTupleValues ∧
      r.after.length ≤ maxTupleValues) :
    ∃ s, openLog { filePath := path } = (.ok (), s) ∧
      ∀ run rest answer, trace step s steps = run ++ (.readAll, answer) :: rest →
        answer = .records (.ok (appended run)) := by
  obtain ⟨s, hopen, hs⟩ := openLog_new hpath
  refine ⟨s, hopen, fun run rest answer htrace => ?_⟩
  refine readAll_answer hs (by simp) (fun r hr => ?_) htrace
  obtain ⟨hrepresentable, hbefore, hafter⟩ := hsteps r hr
  exact ⟨hrepresentable, by simp [readable, hbefore, hafter]⟩

/-- An insertion that is logged, read back, and read back again from the reopened file. -/
def sampleSteps : List Step :=
  [.append ⟨7, ascii "t", 0, .kInsert, [], [.int 1]⟩, .readAll, .flush, .reopen, .readAll]

theorem new_log_faithful_sample :
    ∃ s, openLog { filePath := ascii "t.vlog" } = (.ok (), s) ∧
      ∀ run rest answer, trace step s sampleSteps = run ++ (.readAll, answer) :: rest →
        answer = .records (.ok (appended run)) := by
  refine new_log_faithful (by decide) fun r hr => ?_
  obtain rfl : r = ⟨7, ascii "t", 0, .kInsert, [], [.int 1]⟩ := by simpa [sampleSteps] using hr
  exact ⟨⟨by decide, by decide, by decide⟩, by decide, by decide⟩

end Runs

end VersionLogFile

end CourseDb

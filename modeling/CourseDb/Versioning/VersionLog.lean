import CourseDb.Storage.Heap

/-! # The version log

Every change of a row is recorded with the tuples before and after it. The log
is kept here as the list of its records.
-/

namespace CourseDb

open Fallible (read_bind)

inductive VersionOp where
  | kInsert
  | kUpdate
  | kDelete
deriving DecidableEq, Repr

structure VersionRecord where
  /-- A `std::int64_t`. -/
  timestampMs : ℤ
  tableName : ByteString
  rid : ℕ
  op : VersionOp
  before : Tuple
  after : Tuple
deriving DecidableEq

namespace VersionLog

abbrev Action (α : Type) := Fallible Status (List VersionRecord) α

def emptyTableName : Status := ⟨.kInvalidArgument, "Version record table_name must not be empty"⟩

def recordTooLarge : Status := ⟨.kInvalidArgument, "Serialized version record is too large"⟩

/-- The size of the payload that `SerializeRecord` writes. -/
def recordSize (record : VersionRecord) : ℕ :=
  8 + (4 + record.tableName.length) + 8 + 4 + (serializeTuple record.before).length +
    (serializeTuple record.after).length

def append (record : VersionRecord) : Action Unit := do
  if record.tableName.isEmpty then
    Fallible.fail emptyTableName
  else if recordSize record > 2 ^ 32 - 1 then
    Fallible.fail recordTooLarge
  else
    Fallible.modify (· ++ [record])

theorem append_cases (record : VersionRecord) (records : List VersionRecord) :
    (∃ s, append record records = (.error s, records)) ∨
      append record records = (.ok (), records ++ [record]) := by
  unfold append
  split_ifs
  · exact .inl ⟨_, rfl⟩
  · exact .inl ⟨_, rfl⟩
  · exact .inr rfl

/-- A record can be written but not read back if a tuple has too many values. -/
def readable (record : VersionRecord) : Bool :=
  record.before.length ≤ maxTupleValues && record.after.length ≤ maxTupleValues

def readAll : Action (List VersionRecord) := do
  let records ← Fallible.read
  if records.all readable then return records else Fallible.fail Heap.tupleTooLong

theorem readAll_snd (records : List VersionRecord) : (readAll records).2 = records := by
  simp only [readAll, read_bind]
  split_ifs
  · rfl
  · rfl

end VersionLog

end CourseDb

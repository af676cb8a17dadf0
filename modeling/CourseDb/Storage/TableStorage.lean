import CourseDb.Catalog.Schema
import CourseDb.Storage.HeapMap

/-! # Table storage

A table storage checks a tuple against the schema of its table, fills in the
defaults of the columns that are missing at its end, and hands it to the row
store.
-/

namespace CourseDb.TableStorage

/-- The name of a type in the messages of `ValidateValueAgainstColumn`. -/
def typeName : ColumnType → String
  | .kInt => "INT"
  | .kString => "STRING"
  | .kBool => "BOOL"

def nullNotAllowed (column : ColumnSchema) : Status :=
  ⟨.kInvalidArgument, "Column '" ++ quoted column.name ++ "' does not allow NULL values"⟩

def typeExpected (column : ColumnSchema) : Status :=
  ⟨.kInvalidArgument,
    "Column '" ++ quoted column.name ++ "' expects " ++ typeName column.type ++ " value"⟩

def missingValue (column : ColumnSchema) : Status :=
  ⟨.kInvalidArgument, "Missing value for required column '" ++ quoted column.name ++ "'"⟩

def validateValueAgainstColumn (value : Value) (column : ColumnSchema) : Except Status Unit :=
  if value.isNull then
    if column.notNull then .error (nullNotAllowed column) else .ok ()
  else if value.type ≠ column.type.toValueType then
    .error (typeExpected column)
  else
    .ok ()

/-- The value of a column without a given one. -/
def defaultFor (column : ColumnSchema) : Except Status Value :=
  match column.defaultValue with
  | none => if column.notNull then .error (missingValue column) else .ok .null
  | some value => do
    validateValueAgainstColumn value column
    return value

/-- The loop over the columns. -/
def prepareValues : TableSchema → Tuple → Except Status Tuple
  | [], _ => .ok []
  | column :: columns, [] => do
    let value ← defaultFor column
    let rest ← prepareValues columns []
    return value :: rest
  | column :: columns, value :: values => do
    validateValueAgainstColumn value column
    let rest ← prepareValues columns values
    return value :: rest

def prepareTupleForWrite (schema : TableSchema) (input : Tuple) : Except Status Tuple :=
  if schema.isEmpty then
    .error ⟨.kInternalError, "Table schema in descriptor is empty"⟩
  else if input.length > schema.length then
    .error ⟨.kInvalidArgument, "Got tuple with too many columns"⟩
  else
    prepareValues schema input

section Prepared

variable {schema : TableSchema} {tuple prepared : Tuple} {column : ColumnSchema} {value : Value}

/-- The tuple with the defaults of the columns that it is too short for. -/
def padTuple (schema : TableSchema) (tuple : Tuple) : Tuple :=
  tuple ++ (schema.drop tuple.length).map fun column => column.defaultValue.getD .null

/-- Each value passes the check of its column. -/
def Checked : Tuple → TableSchema → Prop :=
  List.Forall₂ fun value column => validateValueAgainstColumn value column = .ok ()

theorem defaultFor_ok (h : defaultFor column = .ok value) :
    validateValueAgainstColumn value column = .ok () ∧ value = column.defaultValue.getD .null := by
  unfold defaultFor at h
  rcases hdefault : column.defaultValue with _ | v
  · rw [hdefault] at h
    split_ifs at h with hnotNull
    cases h
    rw [validateValueAgainstColumn, if_pos (show Value.null.isNull = true from rfl), if_neg hnotNull]
    exact ⟨rfl, rfl⟩
  · rw [hdefault] at h
    obtain ⟨⟨⟩, hvalid, hvalue⟩ := except_bind_eq_ok.mp h
    cases hvalue
    exact ⟨hvalid, rfl⟩

theorem prepareValues_ok (h : prepareValues schema tuple = .ok prepared) :
    Checked prepared schema ∧ (tuple.length ≤ schema.length → prepared = padTuple schema tuple) := by
  induction schema generalizing tuple prepared with
  | nil =>
    cases h
    refine ⟨.nil, fun hlength => ?_⟩
    rw [List.length_eq_zero_iff.mp (Nat.le_zero.mp hlength)]
    rfl
  | cons column columns ih =>
    cases tuple with
    | nil =>
      obtain ⟨value, hdefault, h⟩ := except_bind_eq_ok.mp h
      obtain ⟨rest, hrest, h⟩ := except_bind_eq_ok.mp h
      cases h
      obtain ⟨hvalid, rfl⟩ := defaultFor_ok hdefault
      obtain ⟨hchecked, hpad⟩ := ih hrest
      exact ⟨.cons hvalid hchecked, fun _ => by rw [hpad (Nat.zero_le _)]; rfl⟩
    | cons value values =>
      obtain ⟨⟨⟩, hvalid, h⟩ := except_bind_eq_ok.mp h
      obtain ⟨rest, hrest, h⟩ := except_bind_eq_ok.mp h
      cases h
      obtain ⟨hchecked, hpad⟩ := ih hrest
      refine ⟨.cons hvalid hchecked, fun hlength => ?_⟩
      rw [hpad (Nat.le_of_succ_le_succ hlength)]
      rfl

theorem Checked.prepareValues_eq (h : Checked tuple schema) : prepareValues schema tuple = .ok tuple := by
  induction h with
  | nil => rfl
  | cons hvalid _ ih =>
    rw [prepareValues, hvalid]
    rw [ih]
    rfl

end Prepared

/-- The file of the heap, its metadata page included, is one the device can hold. -/
def fitsDevice (h : Heap) : Bool :=
  pageFileHeaderSize + (h.pages.length + 1) * h.pageSize ≤ maxFileOffset

/-- A row is not inserted into a file that would outgrow the largest file offset.
No other failure of the device is considered. -/
def insert (schema : TableSchema) (tuple : Tuple) : Heap.Action ℕ := do
  let prepared ← Fallible.ofExcept (prepareTupleForWrite schema tuple)
  fun h =>
    if fitsDevice (Heap.insert prepared h).2 then Heap.insert prepared h
    else (.error PageManager.allocationFailed, h)

def update (schema : TableSchema) (rid : ℕ) (tuple : Tuple) : Heap.Action Unit := do
  let prepared ← Fallible.ofExcept (prepareTupleForWrite schema tuple)
  Heap.update rid prepared

def get (rid : ℕ) : Heap.Action Row := Heap.get rid

def scan : Heap.Action (List Row) := Heap.scan

def delete (rid : ℕ) : Heap.Action Unit := Heap.delete rid

def restore (schema : TableSchema) (rid : ℕ) (tuple : Tuple) : Heap.Action Unit := do
  let prepared ← Fallible.ofExcept (prepareTupleForWrite schema tuple)
  Heap.restore { rid, tuple := prepared, deleted := false }

end CourseDb.TableStorage

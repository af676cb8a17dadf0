import CourseDb.Storage.PageContents
import CourseDb.Storage.RowStoreMap
import CourseDb.Storage.TableStorage

/-! # Table storage over the pages of a file

The table storage of a table puts the preparation of tuples in front of a row
store. Every row it returns conforms to the schema of the table, whatever was
written, refused, restored or reopened before.
-/

namespace CourseDb

open Fallible (Keeps fail ofExcept)
open RowStore (Answer answer Holds)

/-- A `TableStorage` object with its row store. -/
structure TableFile where
  descriptor : TableDescriptor
  rowStore : RowStore
  isOpen : Bool

namespace TableFile

abbrev Action (α : Type) := Fallible Status TableFile α

def new (descriptor : TableDescriptor) (pageSize : ℕ) (file : Option PageFile) : TableFile :=
  { descriptor, rowStore := RowStore.new pageSize file, isOpen := false }

def onStore {α : Type} (x : RowStore.Action α) : Action α :=
  Fallible.zoom rowStore (fun s t => { t with rowStore := s }) x

def openTable : Action Unit := do
  let t ← Fallible.read
  if t.isOpen then
    return ()
  else if t.descriptor.dataFile.isEmpty then
    fail ⟨.kInvalidArgument, "Table data file path is empty"⟩
  else
    onStore RowStore.openStore
    Fallible.modify fun t => { t with isOpen := true }

/-- The check in front of every call. -/
def whenOpen {α : Type} (x : TableSchema → Action α) : Action α := do
  let t ← Fallible.read
  if !t.isOpen then
    fail ⟨.kInternalError, "TableStorage is not opened"⟩
  else
    x t.descriptor.schema

def insert (tuple : Tuple) : Action ℕ := whenOpen fun schema => do
  let prepared ← ofExcept (TableStorage.prepareTupleForWrite schema tuple)
  onStore (RowStore.insert prepared)

def update (rid : ℕ) (tuple : Tuple) : Action Unit := whenOpen fun schema => do
  let prepared ← ofExcept (TableStorage.prepareTupleForWrite schema tuple)
  onStore (RowStore.update rid prepared)

def get (rid : ℕ) : Action Row := whenOpen fun _ => onStore (RowStore.get rid)

def scan : Action (List Row) := whenOpen fun _ => onStore RowStore.scan

def delete (rid : ℕ) : Action Unit := whenOpen fun _ => onStore (RowStore.delete rid)

def restore (rid : ℕ) (tuple : Tuple) : Action Unit := whenOpen fun schema => do
  let prepared ← ofExcept (TableStorage.prepareTupleForWrite schema tuple)
  onStore (RowStore.restore { rid, tuple := prepared, deleted := false })

/-- The calls of a table storage. `reopen` makes a new object on the same file and opens it. -/
inductive Op where
  | insert (tuple : Tuple)
  | update (rid : UInt64) (tuple : Tuple)
  | delete (rid : UInt64)
  | restore (rid : UInt64) (tuple : Tuple)
  | get (rid : UInt64)
  | scan
  | reopen

def step (t : TableFile) : Op → Answer × TableFile
  | .insert tuple => (insert tuple t).map (answer .rid) id
  | .update rid tuple => (update rid.toNat tuple t).map (answer fun _ => .ok) id
  | .delete rid => (delete rid.toNat t).map (answer fun _ => .ok) id
  | .restore rid tuple => (restore rid.toNat tuple t).map (answer fun _ => .ok) id
  | .get rid => (get rid.toNat t).map (answer .row) id
  | .scan => (scan t).map (answer .rows) id
  | .reopen =>
    (openTable (new t.descriptor t.rowStore.pageSize t.rowStore.pageManager.file)).map
      (answer fun _ => .ok) id

/-- The storage of a table without a data file, after `Open`. -/
def initial (descriptor : TableDescriptor) (pageSize : ℕ) : TableFile :=
  (openTable (new descriptor pageSize none)).2

end TableFile

/-- The tuple has one value for each column, of its type or a NULL that the column allows. -/
structure TableSchema.Conforms (schema : TableSchema) (tuple : Tuple) : Prop where
  length_eq : tuple.length = schema.length
  typed : ∀ (i : ℕ) column value, schema[i]? = some column → tuple[i]? = some value →
    value.isNull = false → value.type = column.type.toValueType
  notNull : ∀ (i : ℕ) column value, schema[i]? = some column → tuple[i]? = some value →
    column.notNull = true → value.isNull = false

namespace TableStorage

variable {schema : TableSchema} {tuple prepared : Tuple} {column : ColumnSchema} {value : Value}

/-- The value may stand in the column. -/
def Fits (value : Value) (column : ColumnSchema) : Prop :=
  if value.isNull then column.notNull = false else value.type = column.type.toValueType

theorem validateValueAgainstColumn_fits
    (h : validateValueAgainstColumn value column = .ok ()) : Fits value column := by
  unfold validateValueAgainstColumn at h
  unfold Fits
  split_ifs at h ⊢ with hnull hcolumn htype
  · simpa using hcolumn
  · exact not_not.mp htype

theorem prepareTupleForWrite_conforms (h : prepareTupleForWrite schema tuple = .ok prepared) :
    schema.Conforms prepared := by
  unfold prepareTupleForWrite at h
  split_ifs at h
  have hchecked := (prepareValues_ok h).1
  have hat : ∀ (i : ℕ) column value, schema[i]? = some column → prepared[i]? = some value →
      Fits value column := by
    intro i column value hcolumn hvalue
    obtain ⟨hi, rfl⟩ := List.getElem?_eq_some_iff.mp hvalue
    obtain ⟨hj, rfl⟩ := List.getElem?_eq_some_iff.mp hcolumn
    exact validateValueAgainstColumn_fits (hchecked.get hi hj)
  refine ⟨hchecked.length_eq, fun i column value hcolumn hvalue hnull => ?_,
    fun i column value hcolumn hvalue hnot => ?_⟩
  · have := hat i column value hcolumn hvalue
    rwa [Fits, hnull, if_neg Bool.false_ne_true] at this
  · have := hat i column value hcolumn hvalue
    cases hnull : value.isNull with
    | false => rfl
    | true =>
      rw [Fits, hnull, if_pos rfl, hnot] at this
      cases this

end TableStorage

namespace TableFile

open TableStorage

/-- The rows on the pages of the table's file conform to its schema. -/
def RowsConform (descriptor : TableDescriptor) (pageSize : ℕ) (t : TableFile) : Prop :=
  t.descriptor = descriptor ∧
    Holds (fun row => descriptor.schema.Conforms row.tuple) pageSize t.rowStore

/-- The call has returned the row. -/
def Returned : Answer → Row → Prop
  | .row r, row => row = r
  | .rows rows, row => row ∈ rows
  | _, _ => False

section Calls

variable {desc : TableDescriptor} {pageSize : ℕ} {α : Type} {Q : α → Prop}

theorem onStore_keeps {x : RowStore.Action α}
    (hx : Keeps (Holds (fun row => desc.schema.Conforms row.tuple) pageSize) x Q) :
    Keeps (RowsConform desc pageSize) (onStore x) Q :=
  hx.zoom (fun _ ht => ht.2) fun _ _ ht hs => ⟨ht.1, hs⟩

theorem whenOpen_keeps {x : TableSchema → Action α}
    (hx : Keeps (RowsConform desc pageSize) (x desc.schema) Q) :
    Keeps (RowsConform desc pageSize) (whenOpen x) Q := by
  refine Keeps.read.bind fun t ht => Keeps.guard fun _ => ?_
  rw [ht.1]
  exact hx

/-- The store gets a tuple only if it conforms. -/
theorem prepared_keeps {tuple : Tuple} {x : Tuple → RowStore.Action α}
    (hx : ∀ prepared, desc.schema.Conforms prepared →
      Keeps (Holds (fun row => desc.schema.Conforms row.tuple) pageSize) (x prepared) Q) :
    Keeps (RowsConform desc pageSize) (whenOpen fun schema => do
      let prepared ← ofExcept (prepareTupleForWrite schema tuple)
      onStore (x prepared)) Q :=
  whenOpen_keeps ((Keeps.ofExcept fun _ hok => prepareTupleForWrite_conforms hok).bind
    fun prepared hprepared => onStore_keeps (hx prepared hprepared))

theorem openTable_keeps :
    Keeps (RowsConform desc pageSize) openTable fun _ => True := by
  refine Keeps.read.bind fun t _ => Keeps.ite (fun _ => Keeps.pure trivial) fun _ => ?_
  refine Keeps.guard fun _ => ?_
  exact (onStore_keeps RowStore.openStore_keeps).bind fun _ _ => Keeps.modify fun t ht => ht

theorem answer_keeps (x : Action α) {f : α → Answer} (t : TableFile)
    (hx : Keeps (RowsConform desc pageSize) x fun a =>
      ∀ row, Returned (f a) row → desc.schema.Conforms row.tuple)
    (ht : RowsConform desc pageSize t) :
    RowsConform desc pageSize ((x t).map (answer f) id).2 ∧
      ∀ row, Returned ((x t).map (answer f) id).1 row → desc.schema.Conforms row.tuple := by
  obtain ⟨hkept, hresult⟩ := hx t ht
  refine ⟨hkept, ?_⟩
  change ∀ row, Returned (answer f (x t).1) row → _
  cases hout : (x t).1 with
  | error e => exact fun row hrow => hrow.elim
  | ok a => exact hresult a hout

theorem step_conforms (hmax : pageSize < 2 ^ 64) {t : TableFile}
    (ht : RowsConform desc pageSize t) (op : Op) :
    RowsConform desc pageSize (step t op).2 ∧
      ∀ row, Returned (step t op).1 row → desc.schema.Conforms row.tuple := by
  cases op with
  | insert tuple =>
    have hcall : Keeps (RowsConform desc pageSize) (insert tuple) fun _ => True :=
      prepared_keeps fun _ hp => RowStore.insert_keeps hmax fun _ => hp
    exact answer_keeps (insert tuple) t (hcall.mono fun _ _ _ hrow => hrow.elim) ht
  | update rid tuple =>
    have hcall : Keeps (RowsConform desc pageSize) (update rid.toNat tuple) fun _ => True :=
      prepared_keeps fun _ hp => RowStore.update_keeps hmax _ fun _ _ => hp
    exact answer_keeps (update rid.toNat tuple) t (hcall.mono fun _ _ _ hrow => hrow.elim) ht
  | delete rid =>
    have hcall : Keeps (RowsConform desc pageSize) (delete rid.toNat) fun _ => True :=
      whenOpen_keeps (onStore_keeps (RowStore.delete_keeps hmax _ fun _ hrow => hrow))
    exact answer_keeps (delete rid.toNat) t (hcall.mono fun _ _ _ hrow => hrow.elim) ht
  | restore rid tuple =>
    have hcall : Keeps (RowsConform desc pageSize) (restore rid.toNat tuple) fun _ => True :=
      prepared_keeps fun _ hp => RowStore.restore_keeps hmax rid.toNat_lt hp
    exact answer_keeps (restore rid.toNat tuple) t (hcall.mono fun _ _ _ hrow => hrow.elim) ht
  | get rid =>
    have hcall : Keeps (RowsConform desc pageSize) (get rid.toNat) fun row =>
        desc.schema.Conforms row.tuple :=
      whenOpen_keeps (onStore_keeps (RowStore.get_keeps hmax _))
    refine answer_keeps (get rid.toNat) t (hcall.mono fun row hrow r hr => ?_) ht
    cases hr
    exact hrow
  | scan =>
    have hcall : Keeps (RowsConform desc pageSize) scan fun rows =>
        ∀ row ∈ rows, desc.schema.Conforms row.tuple :=
      whenOpen_keeps (onStore_keeps (RowStore.scan_keeps hmax))
    exact answer_keeps scan t (hcall.mono fun rows hrows row hrow => hrows row hrow) ht
  | reopen =>
    have hnew : RowsConform desc pageSize
        (new t.descriptor t.rowStore.pageSize t.rowStore.pageManager.file) :=
      ⟨ht.1, ht.2.pageSize_eq, ht.2.pageSize_eq, Nat.two_pow_pos 64, ht.2.pages⟩
    exact answer_keeps openTable _ (openTable_keeps.mono fun _ _ _ hrow => hrow.elim) hnew

theorem initial_conforms (desc : TableDescriptor) (pageSize : ℕ) :
    RowsConform desc pageSize (initial desc pageSize) := by
  refine (openTable_keeps (new desc pageSize none) ⟨rfl, rfl, rfl, ?_, ?_⟩).1
  · exact Nat.two_pow_pos 64
  · intro id page hpage
    cases hpage

end Calls

/-- What the executors rely on in the rows that a run returns. -/
def SafeRows (schema : TableSchema) (run : List (Op × Answer)) : Prop :=
  ∀ entry ∈ run, ∀ row, Returned entry.2 row →
    schema.Conforms row.tuple ∧ ∀ name i, schema.findColumn name = some i → i < row.tuple.length

/-- Every row that a table storage returns conforms to the schema of its table. A page size is
a `std::size_t`. -/
theorem stored_rows_conform (pageSize : UInt64) (descriptor : TableDescriptor) (ops : List Op) :
    SafeRows descriptor.schema (trace step (initial descriptor pageSize.toNat) ops) := by
  suffices h : ∀ t, RowsConform descriptor pageSize.toNat t →
      SafeRows descriptor.schema (trace step t ops) from
    h _ (initial_conforms descriptor pageSize.toNat)
  induction ops with
  | nil => exact fun t _ entry hentry => by cases hentry
  | cons op ops ih =>
    intro t ht entry hentry row hrow
    obtain ⟨hnext, hreturned⟩ := step_conforms pageSize.toNat_lt ht op
    rcases List.mem_cons.mp hentry with rfl | hentry
    · have hconforms := hreturned row hrow
      refine ⟨hconforms, fun name i hfind => ?_⟩
      rw [hconforms.length_eq]
      exact TableSchema.findColumn_lt hfind
    · exact ih _ hnext entry hentry row hrow

end TableFile

end CourseDb

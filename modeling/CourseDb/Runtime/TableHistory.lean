import CourseDb.Runtime.Atomicity
import CourseDb.Runtime.TableChanges

/-! # The history of a table

Every successful call leaves a record of the row that it changed. In a
consistent table the records can be undone, the last one first, and this leads
back to the rows and keys before them.
-/

namespace CourseDb

/-- The calls that change a table. -/
inductive StorageNodeEngine.TableCall where
  | row (call : RowCall)
  | revert (timestampMs : ℤ)

def StorageNodeEngine.TableCall.run (dbName tableName : ByteString) :
    TableCall → StorageNodeEngine.Action Unit
  | .row call => call.run dbName tableName
  | .revert timestampMs => RevertService.revertTableToTimestamp dbName tableName timestampMs

namespace TableState

open StorageNodeEngine (RowCall)

variable {descriptor : TableDescriptor} {tbl : ByteString} {s s' u u' : TableState}
  {record : VersionRecord} {rid : ℕ} {t : Tuple} {index : IndexDescriptor}

def run (descriptor : TableDescriptor) (tableName : ByteString) : RowCall → Action Unit
  | .insert tuple => do
    let _ ← insertInternal descriptor tableName tuple true
    return ()
  | .update rid tuple => updateInternal descriptor tableName rid tuple true
  | .delete rid => deleteInternal descriptor tableName rid true

/-- The row that a record tells of, before the call. -/
def rowBefore (record : VersionRecord) : Option Tuple :=
  match record.op with
  | .kInsert => none
  | .kUpdate => some record.before
  | .kDelete => some record.before

def rowAfter (record : VersionRecord) : Option Tuple :=
  match record.op with
  | .kInsert => some record.after
  | .kUpdate => some record.after
  | .kDelete => none

/-- The step that a record tells of. -/
structure Recorded (descriptor : TableDescriptor) (record : VersionRecord) (s s' : TableState) :
    Prop where
  consistent : Consistent descriptor s
  changed : Changed descriptor record.rid (rowBefore record) (rowAfter record) s s'
  readable : VersionLog.readable record = true

/-- A successful call is recorded. -/
structure Appends (tableName : ByteString) (record : VersionRecord) (s s' : TableState) : Prop where
  name_eq : record.tableName = tableName
  time_eq : record.timestampMs = s.clock 0
  records_eq : s'.records = s.records ++ [record]
  clock_eq : s'.clock = fun n => s.clock (n + 1)

theorem Consistent.length_le (hc : Consistent descriptor s) (ht : s.heap.tupleOf rid = some t) :
    t.length ≤ maxTupleValues :=
  (hc.numbered.fits_tuple ht).1

theorem Changed.after_eq {before after : Option Tuple}
    (h : Changed descriptor rid before after s s') : s'.heap.tupleOf rid = after := by
  rw [h.tupleOf_eq, Function.update_self]

theorem run_ok (hr : Regular descriptor) (hc : Consistent descriptor s) {call : RowCall}
    (h : run descriptor tbl call s = (.ok (), s')) :
    ∃ record, Recorded descriptor record s s' ∧ Appends tbl record s s' := by
  cases call with
  | insert tuple =>
    obtain ⟨rid, s₁, hinsert, hpure⟩ := Fallible.bind_eq_ok.mp h
    cases hpure
    obtain ⟨t, -, hchanged, hlogged⟩ := insertInternal_ok hr hc hinsert
    have hread := hchanged.consistent.length_le hchanged.after_eq
    exact ⟨_, ⟨hc, hchanged, by simp [VersionLog.readable, hread]⟩, ⟨rfl, rfl, hlogged.1, hlogged.2⟩⟩
  | update rid tuple =>
    obtain ⟨old, t, -, hchanged, hlogged⟩ := updateInternal_ok hr hc h
    have hread := hchanged.consistent.length_le hchanged.after_eq
    have hread' := hc.length_le hchanged.before_eq
    exact ⟨_, ⟨hc, hchanged, by simp [VersionLog.readable, hread, hread']⟩,
      ⟨rfl, rfl, hlogged.1, hlogged.2⟩⟩
  | delete rid =>
    obtain ⟨old, hchanged, hlogged⟩ := deleteInternal_ok hr hc h
    have hread := hc.length_le hchanged.before_eq
    exact ⟨_, ⟨hc, hchanged, by simp [VersionLog.readable, hread]⟩, ⟨rfl, rfl, hlogged.1, hlogged.2⟩⟩

/-! ## Undoing -/

/-- `u` is a consistent table with the rows of `s`. -/
structure Resembles (descriptor : TableDescriptor) (s u : TableState) : Prop where
  consistent : Consistent descriptor u
  tupleOf_eq : u.heap.tupleOf = s.heap.tupleOf
  pageSize_eq : u.heap.pageSize = s.heap.pageSize
  next_le : s.heap.nextRowId ≤ u.heap.nextRowId
  cfg_eq : ∀ index ∈ descriptor.indexes,
    (u.indexes index.name).cfg = (s.indexes index.name).cfg

instance : IsTrans TableState (Resembles descriptor) where
  trans _ _ _ h h' :=
    ⟨h'.consistent, h'.tupleOf_eq.trans h.tupleOf_eq, h'.pageSize_eq.trans h.pageSize_eq,
      h.next_le.trans h'.next_le,
      fun index hmem => (h'.cfg_eq index hmem).trans (h.cfg_eq index hmem)⟩

protected theorem Resembles.rfl (hc : Consistent descriptor s) : Resembles descriptor s s :=
  ⟨hc, rfl, rfl, le_rfl, fun _ _ => rfl⟩

theorem Resembles.keys_eq (h : Resembles descriptor s u) (hc : Consistent descriptor s)
    (hmem : index ∈ descriptor.indexes) : u.indexes index.name = s.indexes index.name := by
  have hkeys : (u.indexes index.name).keys = (s.indexes index.name).keys := by
    have hu := (h.consistent.keyed index hmem).indexes
    rw [h.tupleOf_eq] at hu
    exact hu.unique (hc.keyed index hmem).indexes
  have hcfg := h.cfg_eq index hmem
  cases hx : u.indexes index.name
  cases hy : s.indexes index.name
  rw [hx, hy] at hkeys hcfg
  subst hkeys
  subst hcfg
  rfl

namespace Recorded

section

variable (h : Recorded descriptor record s s') (hu : Resembles descriptor s' u')
include h hu

theorem accepts (hmem : index ∈ descriptor.indexes) :
    Accepts descriptor index (rowAfter record) (rowBefore record) (u'.indexes index.name) := by
  intro k hbefore hafter
  have hkeyed := h.consistent.keyed index hmem
  have hrow : (s.heap.tupleOf record.rid).bind (keyOf descriptor index) = some k := by
    rw [h.changed.before_eq, hbefore]
  have hkeyed' := (hu.consistent.keyed index hmem).indexes
  rw [hu.tupleOf_eq, h.changed.tupleOf_eq] at hkeyed'
  have hcfg : (u'.indexes index.name).cfg = (s.indexes index.name).cfg :=
    (hu.cfg_eq index hmem).trans (h.changed.cfg_eq index hmem)
  rw [hcfg]
  exact ⟨hkeyed.accepted (hkeyed.found hrow), hkeyed.indexes.free_of_update hrow hkeyed' hafter⟩

theorem resembles
    (hback : Changed descriptor record.rid (rowAfter record) (rowBefore record) u' u) :
    Resembles descriptor s u := by
  refine ⟨hback.consistent, ?_, ?_, ?_, ?_⟩
  · rw [hback.tupleOf_eq, hu.tupleOf_eq, h.changed.tupleOf_eq, Function.update_idem,
      ← h.changed.before_eq, Function.update_eq_self]
  · rw [hback.pageSize_eq, hu.pageSize_eq, h.changed.pageSize_eq]
  · exact h.changed.next_le.trans (hu.next_le.trans hback.next_le)
  · intro index hmem
    rw [hback.cfg_eq index hmem, hu.cfg_eq index hmem, h.changed.cfg_eq index hmem]

theorem now_eq : u'.heap.tupleOf record.rid = rowAfter record := by
  rw [hu.tupleOf_eq, h.changed.after_eq]

theorem stores (ht : rowBefore record = some t) :
    TableStorage.prepareTupleForWrite descriptor.schema t = .ok t ∧ t.length ≤ maxTupleValues ∧
      Heap.pageBytes t ≤ u'.heap.pageSize := by
  have hrow := h.changed.before_eq.trans ht
  obtain ⟨hread, hfit⟩ := h.consistent.numbered.fits_tuple hrow
  rw [hu.pageSize_eq, h.changed.pageSize_eq]
  exact ⟨h.consistent.stored hrow, hread, hfit⟩

end

section

variable (hr : Regular descriptor) (h : Recorded descriptor record s s')
  (hu : Resembles descriptor s' u')
include hr h hu

/-- What a record tells of can be undone wherever the rows are those after it. -/
theorem undo :
    ∃ u, applyInverseRecord descriptor tbl record u' = (.ok (), u) ∧
      Resembles descriptor s u := by
  have hnow := h.now_eq hu
  have hstores := fun t => h.stores (t := t) hu
  have haccepts := fun index (hmem : index ∈ descriptor.indexes) => h.accepts hu hmem
  have hback := fun u => h.resembles (u := u) hu
  unfold applyInverseRecord
  cases hop : record.op with
  | kInsert =>
    simp only [rowAfter, rowBefore, hop] at hnow hback
    obtain ⟨u, hok⟩ := deleteInternal_succeeds tbl hr hu.consistent hnow
    obtain ⟨old, hchanged, -⟩ := deleteInternal_ok hr hu.consistent hok
    obtain rfl : old = record.after := Option.some.inj (hchanged.before_eq.symm.trans hnow)
    exact ⟨u, hok, hback u hchanged⟩
  | kUpdate =>
    simp only [rowAfter, rowBefore, hop] at hnow hstores haccepts hback
    obtain ⟨hstored, hread, hfit⟩ := hstores _ rfl
    obtain ⟨u, hok⟩ :=
      updateInternal_succeeds tbl hr hu.consistent hnow hstored hread hfit haccepts
    obtain ⟨old, t, hprep, hchanged, -⟩ := updateInternal_ok hr hu.consistent hok
    obtain rfl : old = record.after := Option.some.inj (hchanged.before_eq.symm.trans hnow)
    obtain rfl : t = record.before := Except.ok.inj (hprep.symm.trans hstored)
    exact ⟨u, hok, hback u hchanged⟩
  | kDelete =>
    simp only [rowAfter, rowBefore, hop] at hnow hstores haccepts hback
    obtain ⟨hstored, hread, hfit⟩ := hstores _ rfl
    have hrid : record.rid < u'.heap.nextRowId := h.changed.rid_lt.trans_le hu.next_le
    obtain ⟨u, hok⟩ :=
      restoreInternal_succeeds tbl hr hu.consistent hrid hnow hstored hread hfit haccepts
    obtain ⟨t, hprep, hchanged, -⟩ := restoreInternal_ok hr hu.consistent hrid hok
    obtain rfl : t = record.before := Except.ok.inj (hprep.symm.trans hstored)
    exact ⟨u, hok, hback u hchanged⟩

end

end Recorded

end TableState

end CourseDb

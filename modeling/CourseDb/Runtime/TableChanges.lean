import CourseDb.Runtime.TableState
import CourseDb.Storage.LiveTuples

/-! # What the calls on a table change

In a consistent table every index holds the keys of the rows. A successful call
changes one row, and the table stays consistent; and a row that is there can be
changed back to what it was, or removed, or put back under its id.
-/

namespace CourseDb.TableState

open Fallible (bind_ok bind_eq_ok ofExcept_bind)
open StorageNodeEngine (extractIndexKey)
open TableStorage (prepareTupleForWrite)

variable {desc : TableDescriptor} {s s' s₁ : TableState} {rid : ℕ} {tuple : Tuple}
  {before after : Option Tuple} {tbl : ByteString} {index : IndexDescriptor} {op : VersionOp}
  {α : Type} {write : Bool} {x : Heap.Action α} {a : α} {f : IndexDescriptor → KeyIndex.Action Unit}

/-- What the catalog checks of the indexes of a table. -/
structure Regular (descriptor : TableDescriptor) : Prop where
  names : (descriptor.indexes.map IndexDescriptor.name).Nodup
  columns : ∀ index ∈ descriptor.indexes,
    (descriptor.schema.findColumn index.columnName).isSome = true

/-- Every row is one that the schema allows, and every index holds the keys of the rows. -/
structure Consistent (descriptor : TableDescriptor) (s : TableState) : Prop where
  numbered : s.heap.Numbered
  stored : ∀ {rid t}, s.heap.tupleOf rid = some t →
    prepareTupleForWrite descriptor.schema t = .ok t
  keyed : ∀ index ∈ descriptor.indexes,
    Keyed descriptor index s.heap.tupleOf (s.indexes index.name)

/-- The row with an id was `before` and is `after`, and the table is consistent. -/
structure Changed (descriptor : TableDescriptor) (rid : ℕ) (before after : Option Tuple)
    (s s' : TableState) : Prop where
  consistent : Consistent descriptor s'
  before_eq : s.heap.tupleOf rid = before
  tupleOf_eq : s'.heap.tupleOf = Function.update s.heap.tupleOf rid after
  pageSize_eq : s'.heap.pageSize = s.heap.pageSize
  next_eq : s'.heap.nextRowId = max s.heap.nextRowId (rid + 1)
  cfg_eq : ∀ index ∈ descriptor.indexes,
    (s'.indexes index.name).cfg = (s.indexes index.name).cfg

theorem Changed.next_le (h : Changed desc rid before after s s') :
    s.heap.nextRowId ≤ s'.heap.nextRowId := by
  rw [h.next_eq]
  exact Nat.le_max_left _ _

theorem Changed.rid_lt (h : Changed desc rid before after s s') :
    rid < s'.heap.nextRowId := by
  rw [h.next_eq]
  exact Nat.lt_of_succ_le (Nat.le_max_right _ _)

theorem Regular.extract_ok (hr : Regular desc) (hmem : index ∈ desc.indexes)
    (h : prepareTupleForWrite desc.schema tuple = .ok tuple) :
    ∃ key, extractIndexKey desc index tuple = .ok key := by
  obtain ⟨-, hlength⟩ := TableStorage.prepareTupleForWrite_prepared h
  obtain ⟨column, hcolumn⟩ := Option.isSome_iff_exists.mp (hr.columns index hmem)
  have hlt : column < tuple.length := by
    rw [hlength]
    exact TableSchema.findColumn_lt hcolumn
  unfold extractIndexKey
  rw [hcolumn]
  dsimp only
  rw [List.getElem?_eq_getElem hlt]
  exact ⟨_, rfl⟩

/-- A row is changed in the heap, and each index moves its key. -/
theorem changed_of_sets (hc : Consistent desc s) (hbefore : s.heap.tupleOf rid = before)
    (hsets : s.heap.Sets s'.heap rid after)
    (hstored : ∀ t, after = some t → prepareTupleForWrite desc.schema t = .ok t)
    (hindexes : ∀ index ∈ desc.indexes, f index (s.indexes index.name) = (.ok (), s'.indexes index.name))
    (hmoves : ∀ index ∈ desc.indexes, Moves desc index rid before after (f index)) :
    Changed desc rid before after s s' := by
  have hmoved := fun index hmem =>
    (hmoves index hmem).keyed (hindexes index hmem) (hc.keyed index hmem) hbefore
  refine ⟨⟨hsets.numbered, ?_, ?_⟩, hbefore, hsets.tupleOf_eq, hsets.pageSize_eq, hsets.next_eq,
    fun index hmem => (hmoved index hmem).2⟩
  · intro r t ht
    rw [hsets.tupleOf_eq] at ht
    by_cases hr : r = rid
    · rw [hr, Function.update_self] at ht
      exact hstored t ht
    · rw [Function.update_of_ne hr] at ht
      exact hc.stored ht
  · intro index hmem
    rw [hsets.tupleOf_eq]
    exact (hmoved index hmem).1

/-- The log after a call, if the call is recorded. -/
def Logged (write : Bool) (tableName : ByteString) (rid : ℕ) (op : VersionOp)
    (before after : Tuple) (s s' : TableState) : Prop :=
  if write then
    s'.records = s.records ++ [{ timestampMs := s.clock 0, tableName, rid, op, before, after }] ∧
      s'.clock = fun n => s.clock (n + 1)
  else
    s'.records = s.records ∧ s'.clock = s.clock

theorem appendVersion_ok {b a : Tuple} (h : appendVersion tbl rid op b a s = (.ok (), s')) :
    Logged true tbl rid op b a s s' ∧ s'.heap = s.heap ∧ s'.indexes = s.indexes := by
  unfold appendVersion at h
  rcases VersionLog.append_cases
    { timestampMs := s.clock 0, tableName := tbl, rid, op, before := b, after := a } s.records with
    ⟨status, herror⟩ | hok
  · rw [herror] at h
    cases h
  · rw [hok] at h
    cases h
    exact ⟨⟨rfl, rfl⟩, rfl, rfl⟩

/-! ## Successful calls -/

theorem onHeap_ok (h : onHeap x s = (.ok a, s')) :
    x s.heap = (.ok a, s'.heap) ∧ s' = { s with heap := s'.heap } := by
  obtain ⟨hresult, rfl⟩ := Prod.mk.inj h
  exact ⟨Prod.ext hresult rfl, rfl⟩

section Loops

variable {t t' : Tuple} (hr : Regular desc) (ht : prepareTupleForWrite desc.schema t = .ok t)
include hr ht

theorem insert_moves : ∀ index ∈ desc.indexes, Moves desc index rid none (some t) (do
    let key ← Fallible.ofExcept (extractIndexKey desc index t)
    addKey key rid) := by
  intro index hmem
  obtain ⟨key, hkey⟩ := hr.extract_ok hmem ht
  rw [ofExcept_bind hkey]
  exact moves_addKey rfl hkey

theorem delete_moves : ∀ index ∈ desc.indexes, Moves desc index rid (some t) none (do
    let key ← Fallible.ofExcept (extractIndexKey desc index t)
    dropKey key) := by
  intro index hmem
  obtain ⟨key, hkey⟩ := hr.extract_ok hmem ht
  rw [ofExcept_bind hkey]
  exact moves_dropKey hkey rfl

theorem update_moves (ht' : prepareTupleForWrite desc.schema t' = .ok t') :
    ∀ index ∈ desc.indexes, Moves desc index rid (some t) (some t') (do
      let oldKey ← Fallible.ofExcept (extractIndexKey desc index t)
      let newKey ← Fallible.ofExcept (extractIndexKey desc index t')
      moveKey oldKey newKey rid) := by
  intro index hmem
  obtain ⟨key, hkey⟩ := hr.extract_ok hmem ht
  obtain ⟨key', hkey'⟩ := hr.extract_ok hmem ht'
  rw [ofExcept_bind hkey, ofExcept_bind hkey']
  exact moves_moveKey hkey hkey'

end Loops

theorem finish_ok {b : α} {t t' : Tuple}
    (h : (if write then appendVersion tbl rid op t t' >>= fun _ => pure a
      else pure a : Action α) s = (.ok b, s')) :
    b = a ∧ Logged write tbl rid op t t' s s' ∧ s'.heap = s.heap ∧ s'.indexes = s.indexes := by
  cases write with
  | true =>
    obtain ⟨⟨⟩, s₁, happend, hpure⟩ := bind_eq_ok.mp h
    cases hpure
    exact ⟨rfl, appendVersion_ok happend⟩
  | false =>
    cases h
    exact ⟨rfl, ⟨rfl, rfl⟩, rfl, rfl⟩

theorem finishUnit_ok {t t' : Tuple}
    (h : (if write then appendVersion tbl rid op t t' else pure () : Action Unit) s =
      (.ok (), s')) :
    Logged write tbl rid op t t' s s' ∧ s'.heap = s.heap ∧ s'.indexes = s.indexes := by
  cases write with
  | true => exact appendVersion_ok h
  | false =>
    cases h
    exact ⟨⟨rfl, rfl⟩, rfl, rfl⟩

/-- The log is compared with the state in which the call began. -/
theorem Logged.of_eq {t t' : Tuple} (h : Logged write tbl rid op t t' s₁ s')
    (hrecords : s₁.records = s.records) (hclock : s₁.clock = s.clock) :
    Logged write tbl rid op t t' s s' := by
  unfold Logged at h ⊢
  rwa [hrecords, hclock] at h

theorem Changed.of_eq (h : Changed desc rid before after s s₁) (hheap : s'.heap = s₁.heap)
    (hindexes : s'.indexes = s₁.indexes) : Changed desc rid before after s s' := by
  obtain ⟨⟨hnumbered, hstored, hkeyed⟩, hbefore, htuple, hsize, hnext, hcfg⟩ := h
  constructor
  · constructor
    · rw [hheap]
      exact hnumbered
    · rw [hheap]
      exact hstored
    · rw [hheap, hindexes]
      exact hkeyed
  · exact hbefore
  · rw [hheap, htuple]
  · rw [hheap, hsize]
  · rw [hheap, hnext]
  · rw [hindexes]
    exact hcfg

section

variable (hr : Regular desc) (hc : Consistent desc s)
include hr hc

theorem changed_of_loop {s₂ : TableState} {b t : Tuple} (hbefore : s.heap.tupleOf rid = before)
    (hsets : s.heap.Sets s₁.heap rid (some t)) (hs₁ : s₁ = { s with heap := s₁.heap })
    (ht : prepareTupleForWrite desc.schema t = .ok t)
    (hloop : eachIndex f desc.indexes s₁ = (.ok (), s₂))
    (hmoves : ∀ index ∈ desc.indexes, Moves desc index rid before (some t) (f index))
    (hdone : Logged write tbl rid op b t s₂ s' ∧ s'.heap = s₂.heap ∧ s'.indexes = s₂.indexes) :
    Changed desc rid before (some t) s s' ∧ Logged write tbl rid op b t s s' := by
  obtain ⟨hlogged, hheap, hsame⟩ := hdone
  obtain ⟨honly, hindexes⟩ := eachIndex_ok hr.names hloop
  rw [← honly.heap_eq] at hsets
  rw [hs₁] at hindexes
  have hchanged : Changed desc rid before (some t) s s₂ := by
    refine changed_of_sets hc hbefore hsets (fun t' ht' => ?_) hindexes hmoves
    cases ht'
    exact ht
  refine ⟨hchanged.of_eq hheap hsame, hlogged.of_eq ?_ ?_⟩
  · rw [honly.records_eq, hs₁]
  · rw [honly.clock_eq, hs₁]

theorem insertInternal_ok {r : ℕ} (h : insertInternal desc tbl tuple write s = (.ok r, s')) :
    ∃ t, prepareTupleForWrite desc.schema tuple = .ok t ∧
      Changed desc r none (some t) s s' ∧ Logged write tbl r .kInsert [] t s s' := by
  unfold insertInternal at h
  obtain ⟨r₁, s₁, hinsert, h⟩ := bind_eq_ok.mp h
  obtain ⟨row, s₂, hget, h⟩ := bind_eq_ok.mp h
  obtain ⟨⟨⟩, s₃, hloop, h⟩ := bind_eq_ok.mp h
  obtain ⟨hinsert, hs₁⟩ := onHeap_ok hinsert
  obtain ⟨hget, hs₂⟩ := onHeap_ok hget
  obtain ⟨hprep, hsame, hnone, hsets⟩ := TableStorage.insert_sets hc.numbered hinsert hget
  obtain ⟨rfl, hdone⟩ := finish_ok h
  have ht := (TableStorage.prepareTupleForWrite_prepared hprep).1
  rw [← hsame] at hsets
  exact ⟨row.tuple, hprep, changed_of_loop hr hc hnone hsets (by rw [hs₂, hs₁]) ht hloop
    (insert_moves hr ht) hdone⟩

theorem updateInternal_ok (h : updateInternal desc tbl rid tuple write s = (.ok (), s')) :
    ∃ old t, prepareTupleForWrite desc.schema tuple = .ok t ∧
      Changed desc rid (some old) (some t) s s' ∧
      Logged write tbl rid .kUpdate old t s s' := by
  unfold updateInternal at h
  obtain ⟨row, s₁, hbefore, h⟩ := bind_eq_ok.mp h
  obtain ⟨⟨⟩, s₂, hupdate, h⟩ := bind_eq_ok.mp h
  obtain ⟨row', s₃, hafter, h⟩ := bind_eq_ok.mp h
  obtain ⟨⟨⟩, s₄, hloop, h⟩ := bind_eq_ok.mp h
  obtain ⟨hbefore, hs₁⟩ := onHeap_ok hbefore
  obtain ⟨hupdate, hs₂⟩ := onHeap_ok hupdate
  obtain ⟨hafter, hs₃⟩ := onHeap_ok hafter
  obtain ⟨hsame₁, -, hold⟩ := hc.numbered.get_ok hbefore
  rw [hsame₁] at hupdate
  obtain ⟨hprep, hsame₃, hsets⟩ := TableStorage.update_sets hc.numbered hupdate hafter
  have ht := (TableStorage.prepareTupleForWrite_prepared hprep).1
  rw [← hsame₃] at hsets
  exact ⟨row.tuple, row'.tuple, hprep, changed_of_loop hr hc hold hsets (by rw [hs₃, hs₂, hs₁]) ht
    hloop (update_moves hr (hc.stored hold) ht) (finishUnit_ok h)⟩

theorem deleteInternal_ok (h : deleteInternal desc tbl rid write s = (.ok (), s')) :
    ∃ old, Changed desc rid (some old) none s s' ∧
      Logged write tbl rid .kDelete old [] s s' := by
  unfold deleteInternal at h
  obtain ⟨row, s₁, hbefore, h⟩ := bind_eq_ok.mp h
  obtain ⟨⟨⟩, s₂, hloop, h⟩ := bind_eq_ok.mp h
  obtain ⟨⟨⟩, s₃, hdelete, h⟩ := bind_eq_ok.mp h
  obtain ⟨hbefore, hs₁⟩ := onHeap_ok hbefore
  obtain ⟨hdelete, hs₃⟩ := onHeap_ok hdelete
  obtain ⟨hsame₁, -, hold⟩ := hc.numbered.get_ok hbefore
  obtain ⟨honly, hindexes⟩ := eachIndex_ok hr.names hloop
  obtain ⟨hlogged, hheap, hsameIndexes⟩ := finishUnit_ok h
  obtain ⟨heap, hok, hsets⟩ := hc.numbered.delete_sets hold
  have hheap₃ : s₃.heap = heap := by
    rw [honly.heap_eq, hsame₁] at hdelete
    change Heap.delete rid s.heap = _ at hdelete
    rw [hok] at hdelete
    cases hdelete
    rfl
  have hchanged : Changed desc rid (some row.tuple) none s s₃ := by
    rw [← hheap₃] at hsets
    have hsame : s₃.indexes = s₂.indexes := by rw [hs₃]
    have hsame' : s₁.indexes = s.indexes := by rw [hs₁]
    rw [← hsame, hsame'] at hindexes
    exact changed_of_sets hc hold hsets (fun t ht => by cases ht) hindexes
      (delete_moves hr (hc.stored hold))
  have hrecords : s₃.records = s.records := by
    rw [hs₃]
    exact honly.records_eq.trans (by rw [hs₁])
  have hclock : s₃.clock = s.clock := by
    rw [hs₃]
    exact honly.clock_eq.trans (by rw [hs₁])
  exact ⟨row.tuple, hchanged.of_eq hheap hsameIndexes, hlogged.of_eq hrecords hclock⟩

end

theorem ensureMissing_of_none (hc : Consistent desc s) (ht : s.heap.tupleOf rid = none) :
    ensureMissing rid s = (.ok (), s) := by
  obtain ⟨status, hget, hcode⟩ := hc.numbered.get_of_missing ht
  unfold ensureMissing onHeap
  rw [show TableStorage.get rid s.heap = _ from hget]
  dsimp only
  rw [if_neg (not_not_intro hcode)]

theorem ensureMissing_ok (hc : Consistent desc s) (h : ensureMissing rid s = (.ok (), s')) :
    s' = s ∧ s.heap.tupleOf rid = none := by
  rcases ht : s.heap.tupleOf rid with _ | t
  · rw [ensureMissing_of_none hc ht] at h
    cases h
    exact ⟨rfl, rfl⟩
  · have hget := hc.numbered.get_of_tupleOf ht
    unfold ensureMissing onHeap at h
    rw [show TableStorage.get rid s.heap = _ from hget] at h
    cases h

theorem restoreInternal_ok (hr : Regular desc) (hc : Consistent desc s)
    (hrid : rid < s.heap.nextRowId)
    (h : restoreInternal desc tbl rid tuple write s = (.ok (), s')) :
    ∃ t, prepareTupleForWrite desc.schema tuple = .ok t ∧
      Changed desc rid none (some t) s s' ∧ Logged write tbl rid .kInsert [] t s s' := by
  unfold restoreInternal at h
  obtain ⟨⟨⟩, s₁, hmissing, h⟩ := bind_eq_ok.mp h
  obtain ⟨⟨⟩, s₂, hrestore, h⟩ := bind_eq_ok.mp h
  obtain ⟨row, s₃, hget, h⟩ := bind_eq_ok.mp h
  obtain ⟨⟨⟩, s₄, hloop, h⟩ := bind_eq_ok.mp h
  obtain ⟨hs₁, hnone⟩ := ensureMissing_ok hc hmissing
  rw [hs₁] at hrestore
  obtain ⟨hrestore, hs₂⟩ := onHeap_ok hrestore
  obtain ⟨hget, hs₃⟩ := onHeap_ok hget
  obtain ⟨hprep, hsame, hsets⟩ := TableStorage.restore_sets hc.numbered hrid hrestore hget
  have ht := (TableStorage.prepareTupleForWrite_prepared hprep).1
  rw [← hsame] at hsets
  exact ⟨row.tuple, hprep, changed_of_loop hr hc hnone hsets (by rw [hs₃, hs₂]) ht hloop
    (insert_moves hr ht) (finishUnit_ok h)⟩

/-! ## Calls that must succeed -/

theorem onHeap_of_ok {heap : Heap} (h : x s.heap = (.ok a, heap)) :
    onHeap x s = (.ok a, { s with heap }) := by
  rw [onHeap, h]

theorem get_of_sets {heap : Heap} {t : Tuple} (hsets : s.heap.Sets heap rid (some t)) :
    onHeap (TableStorage.get rid) { s with heap } = (.ok ⟨rid, t, false⟩, { s with heap }) := by
  apply onHeap_of_ok
  apply hsets.numbered.get_of_tupleOf
  rw [hsets.tupleOf_eq, Function.update_self]

theorem loop_succeeds (hr : Regular desc) (hc : Consistent desc s)
    (hbefore : s.heap.tupleOf rid = before)
    (hmoves : ∀ index ∈ desc.indexes, Moves desc index rid before after (f index))
    (haccepts : ∀ index ∈ desc.indexes, Accepts desc index before after (s.indexes index.name))
    (hs₁ : s₁.indexes = s.indexes) : ∃ s', eachIndex f desc.indexes s₁ = (.ok (), s') := by
  refine ⟨_, Prod.ext (eachIndex_succeeds hr.names fun index hmem => ?_) rfl⟩
  rw [hs₁]
  exact (hmoves index hmem).succeeds (hc.keyed index hmem) hbefore (haccepts index hmem)

variable {t : Tuple}

section

variable (tbl) (hr : Regular desc) (hc : Consistent desc s)
include hr hc

theorem deleteInternal_succeeds (ht : s.heap.tupleOf rid = some t) :
    ∃ s', deleteInternal desc tbl rid false s = (.ok (), s') := by
  have hget : onHeap (TableStorage.get rid) s = (.ok ⟨rid, t, false⟩, s) :=
    onHeap_of_ok (hc.numbered.get_of_tupleOf ht)
  obtain ⟨s₁, hs₁⟩ : ∃ s₁, deleteFromIndexes desc t s = (.ok (), s₁) := by
    refine loop_succeeds hr hc ht (delete_moves hr (hc.stored ht)) ?_ rfl
    intro index hmem k hk
    cases hk
  obtain ⟨honly, -⟩ := eachIndex_ok hr.names hs₁
  obtain ⟨heap, hdelete, -⟩ := hc.numbered.delete_sets ht
  rw [← honly.heap_eq] at hdelete
  unfold deleteInternal
  rw [bind_ok hget, bind_ok hs₁,
    bind_ok (onHeap_of_ok (show TableStorage.delete rid s₁.heap = _ from hdelete))]
  exact ⟨_, rfl⟩

theorem updateInternal_succeeds {old : Tuple} (hold : s.heap.tupleOf rid = some old)
    (hstored : prepareTupleForWrite desc.schema t = .ok t) (hread : t.length ≤ maxTupleValues)
    (hfit : Heap.pageBytes t ≤ s.heap.pageSize)
    (haccepts : ∀ index ∈ desc.indexes, Accepts desc index (some old) (some t) (s.indexes index.name)) :
    ∃ s', updateInternal desc tbl rid t false s = (.ok (), s') := by
  have hget : onHeap (TableStorage.get rid) s = (.ok ⟨rid, old, false⟩, s) :=
    onHeap_of_ok (hc.numbered.get_of_tupleOf hold)
  obtain ⟨heap, hupdate, hsets⟩ :=
    TableStorage.update_succeeds hc.numbered hstored hread hfit hold
  obtain ⟨s₁, hs₁⟩ : ∃ s₁, updateIndexes desc old t rid { s with heap } = (.ok (), s₁) :=
    loop_succeeds hr hc hold (update_moves hr (hc.stored hold) hstored) haccepts rfl
  unfold updateInternal
  rw [bind_ok hget, bind_ok (onHeap_of_ok hupdate), bind_ok (get_of_sets hsets),
    bind_ok hs₁]
  exact ⟨_, rfl⟩

theorem restoreInternal_succeeds (hrid : rid < s.heap.nextRowId)
    (hnone : s.heap.tupleOf rid = none) (hstored : prepareTupleForWrite desc.schema t = .ok t)
    (hread : t.length ≤ maxTupleValues) (hfit : Heap.pageBytes t ≤ s.heap.pageSize)
    (haccepts : ∀ index ∈ desc.indexes, Accepts desc index none (some t) (s.indexes index.name)) :
    ∃ s', restoreInternal desc tbl rid t false s = (.ok (), s') := by
  obtain ⟨heap, hrestore, hsets⟩ :=
    TableStorage.restore_succeeds hc.numbered hstored hread hfit hrid
  obtain ⟨s₁, hs₁⟩ : ∃ s₁, insertIntoIndexes desc t rid { s with heap } = (.ok (), s₁) :=
    loop_succeeds hr hc hnone (insert_moves hr hstored) haccepts rfl
  unfold restoreInternal
  rw [bind_ok (ensureMissing_of_none hc hnone), bind_ok (onHeap_of_ok hrestore),
    bind_ok (get_of_sets hsets), bind_ok hs₁]
  exact ⟨_, rfl⟩

end

end CourseDb.TableState

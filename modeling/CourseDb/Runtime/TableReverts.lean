import CourseDb.Runtime.TableHistory

/-! # Histories with reverts

A revert writes nothing to the log, so that a later revert meets records that
are undone already. To undo a record again is harmless if it only writes a tuple
with the same keys into a row that is there; the history of a table can then be
followed back to any earlier time, reverts included.
-/

namespace CourseDb.TableState

open Fallible (read_bind bind_ok bind_eq_ok)
open StorageNodeEngine (extractIndexKey)

variable {desc : TableDescriptor} {tbl : ByteString} {s s' s₁ u u' : TableState}
  {record : VersionRecord} {rs : List VersionRecord} {rid : ℕ} {t t' : Tuple}

/-! ## Records that can be undone again -/

/-- Undoing the record writes a tuple into a row that is there and has the same keys. -/
structure Rewrites (descriptor : TableDescriptor) (record : VersionRecord) (s : TableState) :
    Prop where
  row : ∃ t, s.heap.tupleOf record.rid = some t ∧
    ∀ index ∈ descriptor.indexes, keyOf descriptor index t = keyOf descriptor index record.before
  stored : TableStorage.prepareTupleForWrite descriptor.schema record.before = .ok record.before
  read : record.before.length ≤ maxTupleValues
  fit : Heap.pageBytes record.before ≤ s.heap.pageSize

/-- A change that moves no key does not matter. -/
theorem Rewrites.of_changed (h : Rewrites desc record s)
    (hc : Changed desc rid (some t) (some t') s s')
    (hkeys : ∀ index ∈ desc.indexes, keyOf desc index t = keyOf desc index t') :
    Rewrites desc record s' := by
  obtain ⟨old, hold, hsame⟩ := h.row
  refine ⟨?_, h.stored, h.read, hc.pageSize_eq ▸ h.fit⟩
  rw [hc.tupleOf_eq]
  by_cases hrid : record.rid = rid
  · have ht : t = old := by
      have hbefore := hc.before_eq
      rw [← hrid, hold] at hbefore
      exact (Option.some.inj hbefore).symm
    refine ⟨t', by rw [hrid, Function.update_self], fun index hmem => ?_⟩
    rw [← hkeys index hmem, ht, hsame index hmem]
  · exact ⟨old, by rw [Function.update_of_ne hrid, hold], hsame⟩

theorem Rewrites.of_resembles (h : Rewrites desc record s) (hu : Resembles desc s u) :
    Rewrites desc record u := by
  obtain ⟨old, hold, hsame⟩ := h.row
  exact ⟨⟨old, by rw [hu.tupleOf_eq, hold], hsame⟩, h.stored, h.read, hu.pageSize_eq ▸ h.fit⟩

theorem Changed.resembles {before before' after : Option Tuple}
    (h : Changed desc rid before after s s') (hu : Resembles desc s u)
    (h' : Changed desc rid before' after u u') : Resembles desc s' u' where
  consistent := h'.consistent
  tupleOf_eq := by rw [h'.tupleOf_eq, hu.tupleOf_eq, h.tupleOf_eq]
  pageSize_eq := by rw [h'.pageSize_eq, hu.pageSize_eq, h.pageSize_eq]
  next_le := by
    rw [h'.next_eq, h.next_eq]
    exact max_le_max hu.next_le le_rfl
  cfg_eq index hmem := by rw [h'.cfg_eq index hmem, hu.cfg_eq index hmem, h.cfg_eq index hmem]

theorem Rewrites.undo (tbl : ByteString) (hr : Regular desc) (hc : Consistent desc s)
    (hop : record.op = .kUpdate) (h : Rewrites desc record s) :
    ∃ s' t, applyInverseRecord desc tbl record s = (.ok (), s') ∧
      Changed desc record.rid (some t) (some record.before) s s' ∧
      (∀ index ∈ desc.indexes,
        keyOf desc index t = keyOf desc index record.before) ∧
      s'.records = s.records ∧ s'.clock = s.clock := by
  obtain ⟨t, ht, hkeys⟩ := h.row
  have haccepts : ∀ index ∈ desc.indexes,
      Accepts desc index (some t) (some record.before) (s.indexes index.name) := by
    intro index hmem k hafter hbefore
    exact absurd ((hkeys index hmem).trans hafter) hbefore
  obtain ⟨s', hok⟩ : ∃ s', updateInternal desc tbl record.rid record.before false s =
      (.ok (), s') := updateInternal_succeeds _ hr hc ht h.stored h.read h.fit haccepts
  obtain ⟨old, t', hprep, hchanged, hlogged⟩ := updateInternal_ok hr hc hok
  obtain rfl : old = t := Option.some.inj (hchanged.before_eq.symm.trans ht)
  obtain rfl : t' = record.before := Except.ok.inj (hprep.symm.trans h.stored)
  refine ⟨s', old, ?_, hchanged, hkeys, hlogged.1, hlogged.2⟩
  unfold applyInverseRecord
  rw [hop]
  exact hok

/-- The rows after undoing updates, in the order of the list. -/
def overwrite : List VersionRecord → (ℕ → Option Tuple) → ℕ → Option Tuple
  | [], rows => rows
  | record :: records, rows =>
    overwrite records (Function.update rows record.rid (some record.before))

theorem overwrite_of_not_mem {rows : ℕ → Option Tuple} (h : rid ∉ rs.map VersionRecord.rid) :
    overwrite rs rows rid = rows rid := by
  induction rs generalizing rows with
  | nil => rfl
  | cons r rs ih =>
    rw [List.map_cons, List.mem_cons, not_or] at h
    rw [overwrite, ih h.2, Function.update_of_ne h.1]

/-- What a row is overwritten with does not depend on what it was. -/
theorem overwrite_of_mem (h : rid ∈ rs.map VersionRecord.rid) (rows rows' : ℕ → Option Tuple) :
    overwrite rs rows rid = overwrite rs rows' rid := by
  induction rs generalizing rows rows' with
  | nil => cases h
  | cons r rs ih =>
    by_cases hmem : rid ∈ rs.map VersionRecord.rid
    · exact ih hmem _ _
    · rw [List.map_cons, List.mem_cons] at h
      obtain rfl : rid = r.rid := h.resolve_right hmem
      rw [overwrite, overwrite, overwrite_of_not_mem hmem, overwrite_of_not_mem hmem,
        Function.update_self, Function.update_self]

theorem overwrite_idem (rs : List VersionRecord) (rows : ℕ → Option Tuple) :
    overwrite rs (overwrite rs rows) = overwrite rs rows := by
  funext rid
  by_cases hmem : rid ∈ rs.map VersionRecord.rid
  · exact overwrite_of_mem hmem _ _
  · rw [overwrite_of_not_mem hmem]

/-- What undoing updates that move no key leads to. -/
structure Rewritten (descriptor : TableDescriptor) (tableName : ByteString)
    (rs : List VersionRecord) (s s' : TableState) : Prop where
  run_eq : applyInverseRecords descriptor tableName rs s = (.ok (), s')
  undoes : Undoes (Resembles descriptor) (applyInverseRecord descriptor tableName) rs s s'
  consistent : Consistent descriptor s'
  tupleOf_eq : s'.heap.tupleOf = overwrite rs s.heap.tupleOf
  pageSize_eq : s'.heap.pageSize = s.heap.pageSize
  next_le : s.heap.nextRowId ≤ s'.heap.nextRowId
  cfg_eq : ∀ index ∈ descriptor.indexes,
    (s'.indexes index.name).cfg = (s.indexes index.name).cfg
  keeps : ∀ record, Rewrites descriptor record s → Rewrites descriptor record s'
  records_eq : s'.records = s.records
  clock_eq : s'.clock = s.clock

theorem rewrite_all (hr : Regular desc) (hc : Consistent desc s)
    (h : ∀ record ∈ rs, record.op = .kUpdate ∧ Rewrites desc record s) :
    ∃ s', Rewritten desc tbl rs s s' := by
  induction rs generalizing s with
  | nil => exact ⟨s, rfl, .nil (.rfl hc), hc, rfl, rfl, le_rfl, fun _ _ => rfl, fun _ => id, rfl, rfl⟩
  | cons r rs ih =>
    obtain ⟨⟨hop, hfirst⟩, hrest⟩ := List.forall_mem_cons.mp h
    obtain ⟨s₁, t, hok, hchanged, hkeys, hrecords, hclock⟩ :=
      hfirst.undo tbl hr hc hop
    have hkeeps : ∀ record, Rewrites desc record s → Rewrites desc record s₁ :=
      fun record hrecord => hrecord.of_changed hchanged hkeys
    obtain ⟨s', h'⟩ := ih hchanged.consistent fun record hmem =>
      ⟨(hrest record hmem).1, hkeeps record (hrest record hmem).2⟩
    refine ⟨s', ?_, .cons (fun u hu => ?_) h'.undoes, h'.consistent, ?_, ?_, ?_, ?_, ?_, ?_, ?_⟩
    · exact (bind_ok hok).trans h'.run_eq
    · obtain ⟨u', t', hok', hchanged', -⟩ :=
        (hfirst.of_resembles hu).undo tbl hr hu.consistent hop
      exact ⟨u', hok', hchanged.resembles hu hchanged'⟩
    · rw [h'.tupleOf_eq, hchanged.tupleOf_eq]
      rfl
    · rw [h'.pageSize_eq, hchanged.pageSize_eq]
    · exact hchanged.next_le.trans h'.next_le
    · intro index hmem
      rw [h'.cfg_eq index hmem, hchanged.cfg_eq index hmem]
    · intro record hrecord
      exact h'.keeps record (hkeeps record hrecord)
    · rw [h'.records_eq, hrecords]
    · rw [h'.clock_eq, hclock]

/-! ## Whole histories -/

section History

open RevertService (collectRollbackRecords)
open StorageNodeEngine (TableCall)

variable {call : TableCall} {ts : ℤ} {ref : TableState} {old new : List VersionRecord}
  {calls : List TableCall}

def perform (descriptor : TableDescriptor) (tableName : ByteString) : TableCall → Action Unit
  | .row call => run descriptor tableName call
  | .revert timestampMs => revertTableToTimestamp descriptor tableName timestampMs

def step (descriptor : TableDescriptor) (tableName : ByteString) (s : TableState)
    (call : TableCall) : Except Status Unit × TableState :=
  perform descriptor tableName call s

/-- The record is of an update that changed no indexed column. -/
structure KeepsKeys (descriptor : TableDescriptor) (record : VersionRecord) : Prop where
  op_eq : record.op = .kUpdate
  keys_eq : ∀ index ∈ descriptor.indexes,
    extractIndexKey descriptor index record.before = extractIndexKey descriptor index record.after

theorem KeepsKeys.keyOf_eq (h : KeepsKeys desc record) {index : IndexDescriptor}
    (hmem : index ∈ desc.indexes) :
    keyOf desc index record.before = keyOf desc index record.after := by
  rw [keyOf, keyOf, h.keys_eq index hmem]

/-- A call on a row succeeds. A revert undoes only updates that changed no indexed column, and
if it undoes any, it does not go back behind `ts`. -/
def Admissible (descriptor : TableDescriptor) (tableName : ByteString) (ts : ℤ) (s : TableState) :
    TableCall → Prop
  | .row call => (run descriptor tableName call s).1 = .ok ()
  | .revert timestampMs => ∀ records, (readAll s).1 = .ok records →
      ∀ record ∈ collectRollbackRecords tableName records timestampMs,
        ts ≤ timestampMs ∧ KeepsKeys descriptor record

/-- The call is on a row, at a time up to `ts`. -/
def UpTo (ts : ℤ) (s : TableState) : TableCall → Prop
  | .row _ => s.clock 0 ≤ ts
  | .revert _ => False

instance (ts : ℤ) (s : TableState) : DecidablePred (UpTo ts s)
  | .row _ => inferInstanceAs (Decidable (s.clock 0 ≤ ts))
  | .revert _ => isFalse id

/-- From `s`, undoing the records after `ts` leads back to `ref`, also if some of them are undone
already. -/
structure Tracked (descriptor : TableDescriptor) (tableName : ByteString) (ts : ℤ)
    (old new : List VersionRecord) (ref s : TableState) : Prop where
  consistent : Consistent descriptor s
  start : Consistent descriptor ref
  clock : Monotone s.clock
  records_eq : s.records = old ++ new
  past : ∀ r ∈ s.records, r.timestampMs ≤ s.clock 0
  own : ∀ r ∈ s.records, r.tableName = tableName ∧ VersionLog.readable r = true
  old_le : ∀ r ∈ old, r.timestampMs ≤ ts
  new_gt : ∀ r ∈ new, ts < r.timestampMs
  sorted : new.Pairwise fun r r' => r.timestampMs ≤ r'.timestampMs
  undoes : Undoes (Resembles descriptor) (applyInverseRecord descriptor tableName) new.reverse s ref
  again : ∀ later, later <:+ new → (∀ r ∈ later, KeepsKeys descriptor r) →
    ∀ r ∈ later, Rewrites descriptor r s

theorem Tracked.init (hc : Consistent desc s) (hclock : Monotone s.clock)
    (hnone : s.records = []) : Tracked desc tbl ts [] [] s s := by
  refine ⟨hc, hc, hclock, hnone, ?_, ?_, ?_, ?_, .nil, .nil (.rfl hc), ?_⟩
  · rw [hnone]
    exact fun _ hmem => absurd hmem List.not_mem_nil
  · rw [hnone]
    exact fun _ hmem => absurd hmem List.not_mem_nil
  · exact fun _ hmem => absurd hmem List.not_mem_nil
  · exact fun _ hmem => absurd hmem List.not_mem_nil
  · intro later hlater _ r hmem
    rw [List.suffix_nil.mp hlater] at hmem
    exact absurd hmem List.not_mem_nil

namespace Tracked

variable {timestampMs : ℤ}

section

variable (h : Tracked desc tbl ts old new ref s)
include h

theorem past_append (happends : Appends tbl record s s') :
    ∀ r ∈ s'.records, r.timestampMs ≤ s'.clock 0 := by
  have hnext : s.clock 0 ≤ s'.clock 0 := by
    rw [happends.clock_eq]
    exact h.clock (Nat.zero_le 1)
  intro r hmem
  rw [happends.records_eq] at hmem
  rcases List.mem_append.mp hmem with hmem | hmem
  · exact (h.past r hmem).trans hnext
  · rw [List.mem_singleton.mp hmem, happends.time_eq]
    exact hnext

theorem own_append (hstep : Recorded desc record s s') (happends : Appends tbl record s s') :
    ∀ r ∈ s'.records, r.tableName = tbl ∧ VersionLog.readable r = true := by
  intro r hmem
  rw [happends.records_eq] at hmem
  rcases List.mem_append.mp hmem with hmem | hmem
  · exact h.own r hmem
  · rw [List.mem_singleton.mp hmem]
    exact ⟨happends.name_eq, hstep.readable⟩

theorem clock_append (happends : Appends tbl record s s') : Monotone s'.clock := by
  rw [happends.clock_eq]
  exact fun i j hij => h.clock (Nat.succ_le_succ hij)

/-- A call up to `ts` is the one to lead back to from now on. -/
theorem row_upTo (hstep : Recorded desc record s s') (happends : Appends tbl record s s')
    (hts : s.clock 0 ≤ ts) : Tracked desc tbl ts (s.records ++ [record]) [] s' s' := by
  have hc := hstep.changed.consistent
  refine ⟨hc, hc, h.clock_append happends, ?_, h.past_append happends, h.own_append hstep happends,
    ?_, ?_, .nil, .nil (.rfl hc), ?_⟩
  · rw [happends.records_eq, List.append_nil]
  · intro r hmem
    rcases List.mem_append.mp hmem with hmem | hmem
    · exact (h.past r hmem).trans hts
    · rw [List.mem_singleton.mp hmem, happends.time_eq]
      exact hts
  · exact fun _ hmem => absurd hmem List.not_mem_nil
  · intro later hlater _ r hmem
    rw [List.suffix_nil.mp hlater] at hmem
    exact absurd hmem List.not_mem_nil

end

theorem rewrites_self (hstep : Recorded desc record s s')
    (hkeeps : KeepsKeys desc record) : Rewrites desc record s' := by
  have hbefore : rowBefore record = some record.before := by rw [rowBefore, hkeeps.op_eq]
  have hafter : rowAfter record = some record.after := by rw [rowAfter, hkeeps.op_eq]
  obtain ⟨hstored, hread, hfit⟩ := hstep.stores (.rfl hstep.changed.consistent) hbefore
  refine ⟨⟨record.after, ?_, fun index hmem => (hkeeps.keyOf_eq hmem).symm⟩, hstored, hread, hfit⟩
  rw [hstep.changed.after_eq, hafter]

theorem row_after (hr : Regular desc) (h : Tracked desc tbl ts old new ref s)
    (hstep : Recorded desc record s s') (happends : Appends tbl record s s')
    (hts : ts < s.clock 0) : Tracked desc tbl ts old (new ++ [record]) ref s' := by
  refine ⟨hstep.changed.consistent, h.start, h.clock_append happends, ?_, h.past_append happends,
    h.own_append hstep happends, h.old_le, ?_, ?_, ?_, ?_⟩
  · rw [happends.records_eq, h.records_eq, List.append_assoc]
  · intro r hmem
    rcases List.mem_append.mp hmem with hmem | hmem
    · exact h.new_gt r hmem
    · rw [List.mem_singleton.mp hmem, happends.time_eq]
      exact hts
  · refine List.pairwise_append.mpr ⟨h.sorted, List.pairwise_singleton _ _, fun r hmem r' hmem' => ?_⟩
    rw [List.mem_singleton.mp hmem', happends.time_eq]
    exact h.past r (h.records_eq ▸ List.mem_append_right old hmem)
  · rw [List.reverse_append]
    exact .cons (fun u hu => hstep.undo hr hu) h.undoes
  · intro later hlater hkeeps r hmem
    rcases List.eq_nil_or_concat later with rfl | ⟨front, last, rfl⟩
    · exact absurd hmem List.not_mem_nil
    · rw [List.concat_eq_append] at hlater hkeeps hmem
      obtain ⟨before, heq⟩ := hlater
      rw [← List.append_assoc] at heq
      obtain ⟨hfront, hlast⟩ := List.append_inj' heq rfl
      obtain rfl : last = record := List.singleton_inj.mp hlast
      have hlastKeeps := hkeeps last (List.mem_append_right _ (List.mem_singleton_self last))
      rcases List.mem_append.mp hmem with hmem | hmem
      · have hrewrites := h.again front ⟨before, hfront⟩
          (fun r hmem => hkeeps r (List.mem_append_left _ hmem)) r hmem
        have hchanged := hstep.changed
        rw [rowBefore, rowAfter, hlastKeeps.op_eq] at hchanged
        exact hrewrites.of_changed hchanged fun index hmem => hlastKeeps.keyOf_eq hmem
      · rw [List.mem_singleton.mp hmem]
        exact rewrites_self hstep hlastKeeps

theorem rollback_suffix (h : Tracked desc tbl ts old new ref s)
    (hback : ∀ r ∈ collectRollbackRecords tbl s.records timestampMs, ts ≤ timestampMs) :
    collectRollbackRecords tbl s.records timestampMs <:+ new := by
  have hfilter : collectRollbackRecords tbl s.records timestampMs =
      s.records.filter fun r => timestampMs < r.timestampMs := by
    apply List.filter_congr
    intro r hmem
    simp [(h.own r hmem).1]
  have hold : old.filter (fun r => timestampMs < r.timestampMs) = [] := by
    rw [List.filter_eq_nil_iff]
    intro r hmem hlt
    have hmem' : r ∈ collectRollbackRecords tbl s.records timestampMs := by
      rw [hfilter, h.records_eq, List.mem_filter]
      exact ⟨List.mem_append_left _ hmem, hlt⟩
    have hle := h.old_le r hmem
    have hback := hback r hmem'
    simp only [decide_eq_true_eq] at hlt
    omega
  rw [hfilter, h.records_eq, List.filter_append, hold, List.nil_append]
  exact suffix_of_sorted h.sorted timestampMs

theorem readAll_eq (h : Tracked desc tbl ts old new ref s) :
    readAll s = (.ok s.records, s) := by
  unfold readAll VersionLog.readAll
  rw [read_bind,
    if_pos (List.all_eq_true.mpr fun r hmem => (h.own r hmem).2)]
  rfl

section

variable (hr : Regular desc) (h : Tracked desc tbl ts old new ref s)
include hr h

/-- A revert that undoes only updates that move no key can be repeated. -/
theorem revert (hadm : Admissible desc tbl ts s (.revert timestampMs)) :
    ∃ s', revertTableToTimestamp desc tbl timestampMs s = (.ok (), s') ∧
      Tracked desc tbl ts old new ref s' := by
  replace hadm := hadm s.records (by rw [h.readAll_eq])
  obtain ⟨before, hnew⟩ := h.rollback_suffix fun r hmem => (hadm r hmem).1
  set undone := collectRollbackRecords tbl s.records timestampMs with hundone
  have hrewrites : ∀ r ∈ undone.reverse, r.op = .kUpdate ∧ Rewrites desc r s := by
    intro r hmem
    rw [List.mem_reverse] at hmem
    refine ⟨(hadm r hmem).2.op_eq, ?_⟩
    exact h.again undone ⟨before, hnew⟩ (fun r hmem => (hadm r hmem).2) r hmem
  obtain ⟨s', hs'⟩ : ∃ s', Rewritten desc tbl undone.reverse s s' :=
    rewrite_all hr h.consistent hrewrites
  have hrun : revertTableToTimestamp desc tbl timestampMs s = (.ok (), s') := by
    unfold revertTableToTimestamp
    rw [bind_ok h.readAll_eq]
    exact hs'.run_eq
  -- undoing the same records once more leads to the same rows
  obtain ⟨s'', hs''⟩ : ∃ s'', Rewritten desc tbl undone.reverse s' s'' :=
    rewrite_all hr hs'.consistent fun r hmem =>
      ⟨(hrewrites r hmem).1, hs'.keeps r (hrewrites r hmem).2⟩
  have hsame : Resembles desc s' s'' :=
    ⟨hs''.consistent, by rw [hs''.tupleOf_eq, hs'.tupleOf_eq, overwrite_idem], hs''.pageSize_eq,
      hs''.next_le, hs''.cfg_eq⟩
  have hreverse : new.reverse = undone.reverse ++ before.reverse := by
    rw [← hnew, List.reverse_append]
  refine ⟨s', hrun, hs'.consistent, h.start, ?_, ?_, ?_, ?_, h.old_le, h.new_gt, h.sorted, ?_, ?_⟩
  · rw [hs'.clock_eq]
    exact h.clock
  · rw [hs'.records_eq, h.records_eq]
  · rw [hs'.records_eq, hs'.clock_eq]
    exact h.past
  · rw [hs'.records_eq]
    exact h.own
  · have hundoes := h.undoes
    rw [hreverse] at hundoes ⊢
    obtain ⟨v, hv, hrest⟩ := hundoes.run_append (.rfl h.consistent)
    have hveq : v = s' := by
      have hpair := hv.symm.trans hs'.run_eq
      exact (Prod.mk.inj hpair).2
    rw [hveq] at hrest
    exact hs''.undoes.append (hrest.mono hsame)
  · intro later hlater hkeeps r hmem
    exact hs'.keeps r (h.again later hlater hkeeps r hmem)

theorem step (hadm : Admissible desc tbl ts s call) :
    ∃ old' new', Tracked desc tbl ts old' new'
      (if UpTo ts s call then (TableState.step desc tbl s call).2 else ref)
      (TableState.step desc tbl s call).2 := by
  cases call with
  | row call =>
    obtain ⟨s', hs'⟩ : ∃ s', run desc tbl call s = (.ok (), s') :=
      ⟨_, Prod.ext hadm rfl⟩
    obtain ⟨record, hstep, happends⟩ := run_ok hr h.consistent hs'
    have heq : (TableState.step desc tbl s (.row call)).2 = s' := congrArg Prod.snd hs'
    rw [heq]
    by_cases hts : s.clock 0 ≤ ts
    · rw [if_pos (show UpTo ts s (.row call) from hts)]
      exact ⟨_, _, h.row_upTo hstep happends hts⟩
    · rw [if_neg (show ¬ UpTo ts s (.row call) from hts)]
      exact ⟨_, _, h.row_after hr hstep happends (not_le.mp hts)⟩
  | revert timestampMs =>
    obtain ⟨s', hrun, hs'⟩ := h.revert hr hadm
    have heq : (TableState.step desc tbl s (.revert timestampMs)).2 = s' :=
      congrArg Prod.snd hrun
    rw [heq, if_neg (show ¬ UpTo ts s (.revert timestampMs) from id)]
    exact ⟨old, new, hs'⟩

theorem run (hadm : Along (TableState.step desc tbl) (Admissible desc tbl ts) s calls) :
    ∃ old' new', Tracked desc tbl ts old' new'
      (stateAsOf (TableState.step desc tbl) (UpTo ts) ref s calls)
      (finalState (TableState.step desc tbl) s calls) := by
  induction calls generalizing s ref old new with
  | nil => exact ⟨old, new, h⟩
  | cons call calls ih =>
    obtain ⟨old', new', hstep⟩ := h.step hr hadm.1
    exact ih hstep hadm.2

end

/-- Reverting to `ts` undoes what is younger. -/
theorem revert_back (h : Tracked desc tbl ts old new ref s) :
    ∃ u, revertTableToTimestamp desc tbl ts s = (.ok (), u) ∧
      Resembles desc ref u := by
  have hselect : collectRollbackRecords tbl s.records ts = new := by
    unfold collectRollbackRecords
    rw [h.records_eq, List.filter_append, List.filter_eq_nil_iff.mpr, List.filter_eq_self.mpr,
      List.nil_append]
    · intro r hmem
      have hmem' : r ∈ s.records := h.records_eq ▸ List.mem_append_right old hmem
      simp [(h.own r hmem').1, h.new_gt r hmem]
    · intro r hmem
      simp [h.old_le r hmem]
  unfold revertTableToTimestamp
  rw [bind_ok h.readAll_eq, hselect]
  exact h.undoes.run (.rfl h.consistent)

end Tracked

/-! ## Successful calls -/

/-- The table is consistent and has given out the row ids of its log. -/
structure Known (descriptor : TableDescriptor) (s : TableState) : Prop where
  consistent : Consistent descriptor s
  rids : ∀ r ∈ s.records, r.rid < s.heap.nextRowId

theorem applyInverseRecord_ok (hr : Regular desc) (hc : Consistent desc s)
    (hrid : record.rid < s.heap.nextRowId)
    (h : applyInverseRecord desc tbl record s = (.ok (), s')) :
    Consistent desc s' ∧ s.heap.nextRowId ≤ s'.heap.nextRowId ∧ s'.records = s.records := by
  unfold applyInverseRecord at h
  cases hop : record.op with
  | kInsert =>
    rw [hop] at h
    obtain ⟨old, hchanged, hlogged⟩ := deleteInternal_ok hr hc h
    exact ⟨hchanged.consistent, hchanged.next_le, hlogged.1⟩
  | kUpdate =>
    rw [hop] at h
    obtain ⟨old, t, -, hchanged, hlogged⟩ := updateInternal_ok hr hc h
    exact ⟨hchanged.consistent, hchanged.next_le, hlogged.1⟩
  | kDelete =>
    rw [hop] at h
    obtain ⟨t, -, hchanged, hlogged⟩ := restoreInternal_ok hr hc hrid h
    exact ⟨hchanged.consistent, hchanged.next_le, hlogged.1⟩

theorem applyInverseRecords_ok (hr : Regular desc) (hc : Consistent desc s)
    (hrids : ∀ r ∈ rs, r.rid < s.heap.nextRowId)
    (h : applyInverseRecords desc tbl rs s = (.ok (), s')) :
    Consistent desc s' ∧ s.heap.nextRowId ≤ s'.heap.nextRowId ∧ s'.records = s.records := by
  induction rs generalizing s with
  | nil =>
    cases h
    exact ⟨hc, le_rfl, rfl⟩
  | cons r rs ih =>
    obtain ⟨hrid, hrids⟩ := List.forall_mem_cons.mp hrids
    obtain ⟨⟨⟩, s₁, hfirst, hrest⟩ := bind_eq_ok.mp h
    obtain ⟨hc₁, hnext₁, hrecords₁⟩ := applyInverseRecord_ok hr hc hrid hfirst
    obtain ⟨hc', hnext, hrecords⟩ :=
      ih hc₁ (fun r hmem => (hrids r hmem).trans_le hnext₁) hrest
    exact ⟨hc', hnext₁.trans hnext, hrecords.trans hrecords₁⟩

theorem readAll_ok {records : List VersionRecord} (h : (readAll s).1 = .ok records) :
    records = s.records := by
  change (VersionLog.readAll s.records).1 = .ok records at h
  unfold VersionLog.readAll at h
  rw [read_bind] at h
  split_ifs at h
  · exact (Except.ok.inj h).symm
  · cases h

theorem perform_ok (hr : Regular desc) (hk : Known desc s)
    (h : perform desc tbl call s = (.ok (), s')) : Known desc s' := by
  cases call with
  | row call =>
    obtain ⟨record, hstep, happends⟩ := run_ok hr hk.consistent h
    refine ⟨hstep.changed.consistent, ?_⟩
    rw [happends.records_eq]
    intro r hmem
    rcases List.mem_append.mp hmem with hmem | hmem
    · exact (hk.rids r hmem).trans_le hstep.changed.next_le
    · rw [List.mem_singleton.mp hmem]
      exact hstep.changed.rid_lt
  | revert timestampMs =>
    obtain ⟨records, s₁, hread, hundo⟩ := bind_eq_ok.mp h
    obtain ⟨hrecords, rfl⟩ := Prod.mk.inj hread
    have hsub : ∀ r ∈ (collectRollbackRecords tbl records timestampMs).reverse,
        r.rid < s.heap.nextRowId := by
      intro r hmem
      have hmem := List.mem_of_mem_filter (List.mem_reverse.mp hmem)
      rw [readAll_ok hrecords] at hmem
      exact hk.rids r hmem
    obtain ⟨hc, hnext, hsame⟩ := applyInverseRecords_ok hr hk.consistent hsub hundo
    refine ⟨hc, ?_⟩
    rw [hsame]
    exact fun r hmem => (hk.rids r hmem).trans_le hnext

end History

end CourseDb.TableState

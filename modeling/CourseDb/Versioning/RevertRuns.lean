import CourseDb.Runtime.IndexConsistency
import CourseDb.Versioning.FailedRevert

/-! # Reverting after a history

After calls that all succeed, a table can be taken back to any time. After
earlier reverts this is so as long as these have only undone updates of columns
without an index, and have not gone back further.
-/

namespace CourseDb

namespace TableState

variable {desc : TableDescriptor} {s u : TableState}

/-- Consistent tables with the same rows answer a scan with the same rows. -/
theorem Resembles.live_perm (h : Resembles desc s u) (hc : Consistent desc s) :
    (Heap.live u.heap.rows).Perm (Heap.live s.heap.rows) := by
  refine (List.perm_ext_iff_of_nodup h.consistent.numbered.live_nodup hc.numbered.live_nodup).mpr ?_
  intro row
  rw [h.consistent.numbered.mem_live, hc.numbered.mem_live, h.tupleOf_eq]

end TableState

namespace RevertService

open StorageNodeEngine

variable {e e' e₁ e₂ : StorageNodeEngine} {desc : TableDescriptor} {ts : ℤ} {s : TableState}

/-- A scan of the table finds the same rows. -/
def SameTableRows (desc : TableDescriptor) (e e' : StorageNodeEngine) : Prop :=
  ∃ rows rows', (scanTable desc.databaseName desc.tableName e).1 = .ok rows ∧
    (scanTable desc.databaseName desc.tableName e').1 = .ok rows' ∧ rows'.Perm rows

/-- Every key is found under the same row id in each index of the table, or not at all. -/
def SameTableKeys (desc : TableDescriptor) (e e' : StorageNodeEngine) : Prop :=
  ∀ index ∈ desc.indexes, ∀ key,
    (IndexManager.find index.name key e').1 = (IndexManager.find index.name key e).1

/-- The call is on a row, at a time up to `ts`. -/
def UpTo (ts : ℤ) (e : StorageNodeEngine) : TableCall → Prop
  | .row _ => e.clock 0 ≤ ts
  | .revert _ => False

instance (ts : ℤ) (e : StorageNodeEngine) : DecidablePred (UpTo ts e)
  | .row _ => inferInstanceAs (Decidable (e.clock 0 ≤ ts))
  | .revert _ => isFalse id

theorem upTo_iff (ts : ℤ) {db tbl : ByteString} {desc : TableDescriptor}
    (h : Shows db tbl desc e s) (call : TableCall) :
    UpTo ts e call ↔ TableState.UpTo ts s call := by
  cases call with
  | row call =>
    unfold UpTo TableState.UpTo
    rw [h.clock_eq]
  | revert timestampMs => exact Iff.rfl

/-- The calls on rows succeed. -/
def RowCallSucceeds (dbName tableName : ByteString) (e : StorageNodeEngine) : TableCall → Prop
  | .row call => (call.run dbName tableName e).1 = .ok ()
  | .revert _ => True

/-- The records that a revert undoes are of updates that changed no indexed column, and if there
are any, the revert does not go back behind `ts`. -/
def Repeatable (desc : TableDescriptor) (ts : ℤ) (e : StorageNodeEngine) : TableCall → Prop
  | .row _ => True
  | .revert timestampMs =>
    ∀ records, (loadRecords desc.databaseName desc.tableName e).1 = .ok records →
      ∀ record ∈ collectRollbackRecords desc.tableName records timestampMs,
        ts ≤ timestampMs ∧ record.op = .kUpdate ∧ ∀ index ∈ desc.indexes,
          extractIndexKey desc index record.before = extractIndexKey desc index record.after

theorem admissible_iff {e₀ : StorageNodeEngine}
    (h : Shows desc.databaseName desc.tableName (normalized e₀ desc) e s) (call : TableCall) :
    RowCallSucceeds desc.databaseName desc.tableName e call ∧ Repeatable desc ts e call ↔
      TableState.Admissible (normalized e₀ desc) desc.tableName ts s call := by
  cases call with
  | row call =>
    unfold RowCallSucceeds Repeatable TableState.Admissible
    rw [and_true]
    have hrun := (Shows.run_tracks (.row call) e s h).1
    exact iff_of_eq (congrArg (· = _) hrun)
  | revert timestampMs =>
    unfold RowCallSucceeds Repeatable TableState.Admissible
    rw [true_and, h.loadRecords_eq]
    refine forall₄_congr fun records _ record _ => and_congr_right fun _ => ?_
    constructor
    · rintro ⟨hop, hkeys⟩
      exact ⟨hop, List.forall_mem_map.mpr hkeys⟩
    · rintro ⟨hop, hkeys⟩
      exact ⟨hop, List.forall_mem_map.mp hkeys⟩

/-- After such a history, a revert leads back to the state after the last call up to its time. -/
theorem revert_of_repeatable (h : NewTable e desc e') (hclock : Monotone e.clock)
    {calls : List TableCall}
    (hadm : Along (stepOn desc) (fun e call =>
      RowCallSucceeds desc.databaseName desc.tableName e call ∧ Repeatable desc ts e call)
      e' calls) :
    ∃ final, revertTableToTimestamp desc.databaseName desc.tableName ts
        (finalState (stepOn desc) e' calls) = (.ok (), final) ∧
      SameTableRows desc (stateAsOf (stepOn desc) (UpTo ts) e' e' calls) final ∧
      SameTableKeys desc (stateAsOf (stepOn desc) (UpTo ts) e' e' calls) final := by
  have hfollows : Follows (Shows desc.databaseName desc.tableName (normalized e desc))
      (stepOn desc) (TableState.step (normalized e desc) desc.tableName) := tableStep_follows
  have hadm' := (hfollows.along (fun _ _ call hst => admissible_iff hst call) calls h.shows).mp hadm
  obtain ⟨old, new, htracked⟩ :=
    (TableState.Tracked.init h.consistent hclock rfl).run h.regular hadm'
  have hc := htracked.start
  obtain ⟨u, hrun, hresembles⟩ := htracked.revert_back
  have hfinal := hfollows.finalState calls h.shows
  have hpast := hfollows.stateAsOf (fun _ _ call hst => upTo_iff ts hst call) calls h.shows
    h.shows
  obtain ⟨hresult, hstate⟩ := Shows.run_tracks (.revert ts) _ _ hfinal
  change (revertTableToTimestamp _ _ ts _).1 = (TableState.revertTableToTimestamp _ _ ts _).1
    at hresult
  change Shows _ _ _ (revertTableToTimestamp _ _ ts _).2
    (TableState.revertTableToTimestamp _ _ ts _).2 at hstate
  rw [hrun] at hresult hstate
  refine ⟨_, Prod.ext hresult rfl, ?_, ?_⟩
  · refine ⟨_, _, (Shows.scanTable_tracks _ _ hpast).1.trans (by rw [hc.scanTable_eq]),
      (Shows.scanTable_tracks _ _ hstate).1.trans (by rw [hresembles.consistent.scanTable_eq]), ?_⟩
    exact hresembles.live_perm hc
  · intro index hmem key
    obtain ⟨index', hmem', hname, -⟩ := mem_normalized e hmem
    rw [← hname, hstate.find_eq hmem' key, hpast.find_eq hmem' key, hresembles.keys_eq hc hmem']

theorem along_rows {db tbl : ByteString} {calls : List RowCall}
    (h : AllSucceed db tbl e (calls.map .row)) :
    Along (tableStep db tbl) (fun e call =>
      RowCallSucceeds db tbl e call ∧ Repeatable desc ts e call) e (calls.map .row) := by
  induction calls generalizing e with
  | nil => trivial
  | cons call calls ih => exact ⟨⟨h.1, trivial⟩, ih h.2⟩

/-- After successful calls on rows, a revert leads back to the rows and the keys after the last
call up to its time. -/
theorem revert_restores (h : NewTable e desc e') (hclock : Monotone e.clock)
    (calls : List RowCall) (hok : AllSucceed desc.databaseName desc.tableName e' (calls.map .row))
    (ts : ℤ) :
    ∃ final, revertTableToTimestamp desc.databaseName desc.tableName ts
        (finalState (stepOn desc) e' (calls.map .row)) = (.ok (), final) ∧
      SameTableRows desc (stateAsOf (stepOn desc) (UpTo ts) e' e' (calls.map .row)) final ∧
      SameTableKeys desc (stateAsOf (stepOn desc) (UpTo ts) e' e' (calls.map .row)) final :=
  revert_of_repeatable h hclock (along_rows hok)

/-- A revert succeeds and leads back to the rows after the last call up to its time. -/
def LeadsBack (desc : TableDescriptor) (ts : ℤ) (e : StorageNodeEngine) (calls : List TableCall) :
    Prop :=
  ∃ final, revertTableToTimestamp desc.databaseName desc.tableName ts
      (finalState (stepOn desc) e calls) = (.ok (), final) ∧
    SameTableRows desc (stateAsOf (stepOn desc) (UpTo ts) e e calls) final

/-- A revert leads back also after other reverts, if all of these can be repeated. -/
theorem revert_leads_back (h : NewTable e desc e') (hclock : Monotone e.clock)
    (calls : List TableCall) (ts : ℤ)
    (hrows : Along (stepOn desc) (RowCallSucceeds desc.databaseName desc.tableName) e' calls)
    (hrepeat : Along (stepOn desc) (Repeatable desc ts) e' calls) :
    LeadsBack desc ts e' calls := by
  obtain ⟨final, hrun, hsame, -⟩ := revert_of_repeatable h hclock (hrows.and hrepeat)
  exact ⟨final, hrun, hsame⟩

instance (dbName tableName : ByteString) (e : StorageNodeEngine) :
    DecidablePred (RowCallSucceeds dbName tableName e)
  | .row call => inferInstanceAs (Decidable ((call.run dbName tableName e).1 = .ok ()))
  | .revert _ => isTrue trivial

instance (desc : TableDescriptor) (ts : ℤ) (e : StorageNodeEngine) :
    DecidablePred (Repeatable desc ts e)
  | .row _ => isTrue trivial
  | .revert timestampMs =>
    match h : (loadRecords desc.databaseName desc.tableName e).1 with
    | .error _ => isTrue fun records hrecords => by
        rw [h] at hrecords
        cases hrecords
    | .ok records =>
      decidable_of_iff (∀ record ∈ collectRollbackRecords desc.tableName records timestampMs,
          ts ≤ timestampMs ∧ record.op = .kUpdate ∧ ∀ index ∈ desc.indexes,
            extractIndexKey desc index record.before = extractIndexKey desc index record.after) <| by
        constructor
        · intro hall records' hrecords
          rw [h] at hrecords
          cases hrecords
          exact hall
        · exact fun hall => hall records h

def onePerson : List RowCall :=
  [.insert [.int 1, .string (ascii "a")], .update 0 [.int 2, .string (ascii "b")], .delete 0]

/-- The second name is undone, the first one is there again. -/
theorem revert_restores_name :
    AllSucceed people.databaseName people.tableName withPeople (onePerson.map .row) ∧
      ∃ final, revertTableToTimestamp people.databaseName people.tableName 1
          (finalState (stepOn people) withPeople (onePerson.map .row)) = (.ok (), final) ∧
        SameTableRows people
          (stateAsOf (stepOn people) (UpTo 1) withPeople withPeople (onePerson.map .row)) final ∧
        SameTableKeys people
          (stateAsOf (stepOn people) (UpTo 1) withPeople withPeople (onePerson.map .row)) final := by
  have hok : AllSucceed people.databaseName people.tableName withPeople (onePerson.map .row) := by
    unfold AllSucceed
    decide +kernel
  exact ⟨hok, revert_restores newTable_people clock_withDatabase _ hok 1⟩

/-- An update of the name can be undone again and again. -/
theorem revert_leads_back_twice :
    (trace (stepOn people) withPeople
        [insertPerson 1 "a", renamePerson 0 1 "b", .revert 1, renamePerson 0 1 "c"]).map Prod.snd =
        [.ok (), .ok (), .ok (), .ok ()] ∧
      LeadsBack people 1 withPeople
        [insertPerson 1 "a", renamePerson 0 1 "b", .revert 1, renamePerson 0 1 "c"] :=
  ⟨by decide +kernel, revert_leads_back newTable_people clock_withDatabase _ 1 (by decide +kernel)
    (by decide +kernel)⟩

/-- An insertion cannot be undone twice: the second revert to the same time fails. -/
theorem revert_twice_fails :
    (trace (stepOn people) withPeople
        [insertPerson 1 "a", .revert 0, .revert 0]).map Prod.snd =
        [.ok (), .ok (), .error RowStore.rowIsDeleted] ∧
      Along (stepOn people) (RowCallSucceeds people.databaseName people.tableName) withPeople
        [insertPerson 1 "a", .revert 0] ∧
      ¬ LeadsBack people 0 withPeople [insertPerson 1 "a", .revert 0] := by
  have hfails : (revertTableToTimestamp people.databaseName people.tableName 0
      (finalState (stepOn people) withPeople [insertPerson 1 "a", .revert 0])).1 =
        .error RowStore.rowIsDeleted := by decide +kernel
  refine ⟨by decide +kernel, by decide +kernel, ?_⟩
  rintro ⟨final, hrun, -⟩
  rw [hrun] at hfails
  cases hfails

end RevertService

end CourseDb

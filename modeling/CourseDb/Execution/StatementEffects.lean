import CourseDb.Execution.RowTuples
import CourseDb.Execution.StatementAtomicity
import CourseDb.Runtime.Counting

/-! # Statements that succeed

INSERT, UPDATE and DELETE call the engine once for each row that they add or
change. In a table whose rows have different ids, the calls together do what the
statement says to the rows that were live before it, except that the table
storage fills up a tuple that is shorter than the schema of the open table.
-/

namespace CourseDb.Executor

open Fallible (bind_eq_ok ofExcept_bind_eq_ok)
open StorageNodeEngine (OpenAt OtherRows Counted RoomFor)
open TableStorage (padTuple)

variable (regexMatch : RegexMatch)

/-- The row satisfies the condition of a statement. -/
def isMatch (schema : TableSchema) (predicate : Option Expr) (row : Row) : Bool :=
  matchesRow regexMatch schema predicate row = .ok true

section Rows

variable {rows : List Row} {row : Row} {p : Row → Bool} {tupleOf : Row → Tuple}

/-- Give `row` the new tuple of the scanned row, if they have the same id. -/
def takeOver (tupleOf : Row → Tuple) (row scanned : Row) : Row :=
  if row.rid = scanned.rid then { row with tuple := tupleOf scanned } else row

theorem foldl_takeOver_of_notMem (h : row.rid ∉ rows.map Row.rid) :
    rows.foldl (takeOver tupleOf) row = row := by
  induction rows with
  | nil => rfl
  | cons scanned rows ih =>
    rw [List.map_cons, List.mem_cons, not_or] at h
    rw [List.foldl_cons, takeOver, if_neg h.1]
    exact ih h.2

/-- In a scan of rows with different ids, a row is changed once. -/
theorem foldl_takeOver_of_mem (hnodup : (rows.map Row.rid).Nodup) (hrow : row ∈ rows) :
    rows.foldl (takeOver tupleOf) row = { row with tuple := tupleOf row } := by
  induction rows with
  | nil => cases hrow
  | cons scanned rows ih =>
    obtain ⟨hscanned, hrest⟩ := List.nodup_cons.mp hnodup
    rw [List.foldl_cons, takeOver]
    rcases List.mem_cons.mp hrow with rfl | hmem
    · rw [if_pos rfl]
      exact foldl_takeOver_of_notMem hscanned
    · rw [if_neg (ne_of_mem_of_not_mem (List.mem_map_of_mem hmem) hscanned)]
      exact ih hrest hmem

/-- Of rows with different ids, only a match has the id of a match. -/
theorem mem_rids_filter (hnodup : (rows.map Row.rid).Nodup) (hrow : row ∈ rows) :
    row.rid ∈ (rows.filter p).map Row.rid ↔ p row := by
  constructor
  · intro h
    obtain ⟨scanned, hscanned, hrid⟩ := List.mem_map.mp h
    obtain ⟨hmem, hp⟩ := List.mem_filter.mp hscanned
    rwa [← List.inj_on_of_nodup_map hnodup hmem hrow hrid]
  · intro h
    exact List.mem_map_of_mem (List.mem_filter.mpr ⟨hrow, h⟩)

theorem foldl_takeOver (hnodup : (rows.map Row.rid).Nodup) (hrow : row ∈ rows) :
    (rows.filter p).foldl (takeOver tupleOf) row =
      if p row then { row with tuple := tupleOf row } else row := by
  split_ifs with hp
  · exact foldl_takeOver_of_mem (hnodup.sublist (List.filter_sublist.map _))
      (List.mem_filter.mpr ⟨hrow, hp⟩)
  · exact foldl_takeOver_of_notMem ((mem_rids_filter hnodup hrow).not.mpr hp)

end Rows

section Loops

variable {regexMatch} {db tbl : ByteString} {table : OpenTableState}
  {desc : TableDescriptor} {e e' : StorageNodeEngine} {heap : Heap} {count : ℕ} {α : Type}
  {predicate : Option Expr} {rows : List Row} {x : StorageNodeEngine.Action α} {r : Except Status α}

theorem onEngine_eq_ok {a : α} : onEngine x e = (.ok a, e') ↔ x e = (.ok a, e') := by
  unfold onEngine
  rcases x e with ⟨s | b, e₁⟩ <;> simp [Except.mapError]

theorem checked_eq_ok {a : α} : checked r e = (.ok a, e') ↔ r = .ok a ∧ e' = e := by
  unfold checked
  rcases r with s | b <;> simp [Except.mapError, eq_comm]

theorem onEngine_bind_eq_ok {β : Type} {f : α → Action β} {b : β} :
    (onEngine x >>= f) e = (.ok b, e') ↔ ∃ a e₁, x e = (.ok a, e₁) ∧ f a e₁ = (.ok b, e') := by
  simp only [bind_eq_ok, onEngine_eq_ok]

theorem checked_bind_eq_ok {β : Type} {f : α → Action β} {b : β} :
    (checked r >>= f) e = (.ok b, e') ↔ ∃ a, r = .ok a ∧ f a e = (.ok b, e') := by
  simp only [bind_eq_ok, checked_eq_ok]
  aesop

theorem roomFor_of_openAt {n : ℕ} (hat : OpenAt db tbl table heap e)
    (hroom : heap.nextRowId + n < 2 ^ 64) : RoomFor db tbl n e := by
  intro table' e₁ heap' hopen hfile
  obtain ⟨rfl, hkeeps⟩ := hat.openForChange_eq hopen
  rw [hkeeps.heaps hat.file] at hfile
  cases hfile
  exact hroom

theorem insertRows_effect (hnames : (desc.schema.map ColumnSchema.name).Nodup)
    {columns : List ByteString} {rows : List (List Value)}
    (hat : OpenAt db tbl table heap e)
    (hroom : heap.nextRowId + rows.length < 2 ^ 64)
    (hok : insertRows desc db tbl columns rows e = (.ok count, e')) :
    ∃ heap' added, OpenAt db tbl table heap' e' ∧ OtherRows table.file e e' ∧
      count = rows.length ∧ (Heap.live heap'.rows).Perm (Heap.live heap.rows ++ added) ∧
      added.map Row.tuple = rows.map (fun values =>
        padTuple table.descriptor.schema (givenTuple desc.schema columns values)) ∧
      (rows ≠ [] → desc.schema.length ≤ table.descriptor.schema.length) := by
  induction rows generalizing e heap count with
  | nil =>
    cases hok
    exact ⟨heap, [], hat, refl _, rfl, by simp, rfl, by simp⟩
  | cons values rows ih =>
    obtain ⟨tuple, htuple, hok₁⟩ := checked_bind_eq_ok.mp hok
    obtain ⟨rid, e₂, hinsert, hok₂⟩ := onEngine_bind_eq_ok.mp hok₁
    obtain ⟨count', e₃, hrest, hend⟩ := bind_eq_ok.mp hok₂
    cases hend
    obtain ⟨heap₁, hheap, hat₁, hother₁⟩ := StorageNodeEngine.insertInternal_effect hat hinsert
    obtain ⟨prepared, hprep, -, hnext, hperm₁⟩ := TableStorage.insert_live hheap
    obtain ⟨hlength, rfl⟩ := TableStorage.prepareTupleForWrite_ok hprep
    have hroom₁ : heap₁.nextRowId + rows.length < 2 ^ 64 := by
      rw [List.length_cons] at hroom
      rw [hnext, Nat.mod_eq_of_lt (by omega)]
      omega
    obtain ⟨heap', added, hat', hother', rfl, hperm', htuples, -⟩ := ih hat₁ hroom₁ hrest
    obtain rfl := buildTuple_ok hnames htuple
    refine ⟨heap', heap.newRow (padTuple table.descriptor.schema
        (givenTuple desc.schema columns values)) :: added,
      hat', Trans.trans hother₁ hother', rfl, ?_, ?_, fun _ => ?_⟩
    · refine hperm'.trans ((hperm₁.append_right added).trans ?_)
      rw [List.append_assoc, List.singleton_append]
    · rw [List.map_cons, List.map_cons, htuples]
      rfl
    · rwa [givenTuple, List.length_map] at hlength

/-- What holds of the calls on the matches, one after the other, holds of the loop. -/
theorem eachMatch_ok {act : Row → Action Unit} {schema : TableSchema}
    {P : List Row → StorageNodeEngine → StorageNodeEngine → Prop} (hnil : ∀ e, P [] e e)
    (hcons : ∀ {row rows e e₁ e'}, act row e = (.ok (), e₁) → P rows e₁ e' → P (row :: rows) e e')
    (hok : eachMatch regexMatch schema predicate act rows e = (.ok count, e')) :
    count = (rows.filter (isMatch regexMatch schema predicate)).length ∧
      P (rows.filter (isMatch regexMatch schema predicate)) e e' := by
  induction rows generalizing e count with
  | nil =>
    cases hok
    exact ⟨rfl, hnil _⟩
  | cons row rows ih =>
    obtain ⟨matched, hmatch, hok₁⟩ := checked_bind_eq_ok.mp hok
    have hrow : isMatch regexMatch schema predicate row = matched := by simp [isMatch, hmatch]
    cases matched with
    | false =>
      rw [List.filter_cons_of_neg (by simp [hrow])]
      exact ih hok₁
    | true =>
      rw [if_pos rfl] at hok₁
      obtain ⟨⟨⟩, e₁, hact, hok₂⟩ := bind_eq_ok.mp hok₁
      obtain ⟨count', e₂, hrest, hend⟩ := bind_eq_ok.mp hok₂
      cases hend
      obtain ⟨rfl, hP⟩ := ih hrest
      rw [List.filter_cons_of_pos hrow]
      exact ⟨rfl, hcons hact hP⟩

variable (db tbl table) in
/-- The calls on `rows` store the tuples in the open table, and change no other one. -/
def Updates (tupleOf : Row → Tuple) (rows : List Row) (e e' : StorageNodeEngine) : Prop :=
  ∀ heap, Counted e → OpenAt db tbl table heap e →
    ∃ heap', OpenAt db tbl table heap' e' ∧ OtherRows table.file e e' ∧
      (Heap.live heap'.rows = (Heap.live heap.rows).map fun row => rows.foldl
        (takeOver fun scanned => padTuple table.descriptor.schema (tupleOf scanned)) row) ∧
      ∀ row ∈ rows, (tupleOf row).length ≤ table.descriptor.schema.length

variable (db tbl table) in
/-- The calls on `rows` delete them from the open table, and change no other one. -/
def Deletes (rows : List Row) (e e' : StorageNodeEngine) : Prop :=
  ∀ heap, Counted e → OpenAt db tbl table heap e →
    ∃ heap', OpenAt db tbl table heap' e' ∧ OtherRows table.file e e' ∧
      Heap.live heap'.rows = (Heap.live heap.rows).filter fun row => row.rid ∉ rows.map Row.rid

theorem updateRows_effect (hnames : (desc.schema.map ColumnSchema.name).Nodup)
    {assignments : List (ByteString × Value)}
    (hok : updateRows regexMatch desc db tbl assignments predicate rows e = (.ok count, e')) :
    count = (rows.filter (isMatch regexMatch desc.schema predicate)).length ∧
      Updates db tbl table (fun row => assignedTuple desc.schema assignments row.tuple)
        (rows.filter (isMatch regexMatch desc.schema predicate)) e e' := by
  refine eachMatch_ok ?_ ?_ hok
  · exact fun e heap _ hat => ⟨heap, hat, refl _, by simp, by simp⟩
  · intro row rows e e₁ e' hact ih heap hc hat
    obtain ⟨updated, hassign, hcall⟩ := ofExcept_bind_eq_ok.mp hact
    rw [onEngine_eq_ok] at hcall
    obtain rfl := assign_ok hnames hassign
    obtain ⟨heap₁, hheap, hat₁, hother₁⟩ := StorageNodeEngine.updateInternal_effect hat hcall
    obtain ⟨prepared, hprep, hlive₁⟩ := TableStorage.update_live (hc.table hat.file) hheap
    obtain ⟨hlength, rfl⟩ := TableStorage.prepareTupleForWrite_ok hprep
    have hc₁ := (StorageNodeEngine.updateInternal_keepsCounted _ _ _ _ _).of_eq hcall hc
    obtain ⟨heap', hat', hother', hlive', hfit⟩ := ih heap₁ hc₁ hat₁
    refine ⟨heap', hat', Trans.trans hother₁ hother', ?_,
      List.forall_mem_cons.mpr ⟨hlength, hfit⟩⟩
    rw [hlive', hlive₁, List.map_map]
    rfl

theorem deleteRows_effect
    (hok : deleteRows regexMatch desc db tbl predicate rows e = (.ok count, e')) :
    count = (rows.filter (isMatch regexMatch desc.schema predicate)).length ∧
      Deletes db tbl table (rows.filter (isMatch regexMatch desc.schema predicate)) e e' := by
  refine eachMatch_ok ?_ ?_ hok
  · exact fun e heap _ hat => ⟨heap, hat, refl _, by simp⟩
  · intro row rows e e₁ e' hact ih heap hc hat
    have hcall := onEngine_eq_ok.mp hact
    obtain ⟨found, heap₁, hget, hheap, hat₁, hother₁⟩ :=
      StorageNodeEngine.deleteInternal_effect hat hcall
    have hlive₁ := TableStorage.delete_live (hc.table hat.file) hget hheap
    have hc₁ := (StorageNodeEngine.deleteInternal_keepsCounted _ _ _ _).of_eq hcall hc
    obtain ⟨heap', hat', hother', hlive'⟩ := ih heap₁ hc₁ hat₁
    refine ⟨heap', hat', Trans.trans hother₁ hother', ?_⟩
    rw [hlive', hlive₁, List.filter_filter]
    refine List.filter_congr fun r _ => ?_
    rw [Bool.eq_iff_iff]
    simp only [Bool.and_eq_true, decide_eq_true_eq, List.map_cons, List.mem_cons, not_or, and_comm]

end Loops

end CourseDb.Executor

import CourseDb.Execution.StatementEffects

/-! # Statements do what they say

A successful INSERT, UPDATE or DELETE does to the rows of its table what the
statement says, and to no other row anything, exactly if the tuples that it
writes are as long as the schema of the open table.
-/

namespace CourseDb.Executor

open Fallible (Within bind_ok bind_eq_ok bind_error bind_pure_snd)
open StorageNodeEngine (OpenAt OtherRows KeepsHeaps Counted KeepsCounted RoomFor openTable
  openForChange getTableDescriptor scanTable insertInternal_opens openTable_opens
  insertInternal_counted insertInternal scanTable_keepsCounted)
open TableStorage (padTuple)
open CatalogManager (getTable getTable_nodup)

variable (regexMatch : RegexMatch) {file : ℕ} {descriptor : TableDescriptor}
  {columns : List ByteString} {rows : List (List Value)} {predicate : Option Expr}

/-- The rows with the given tuples come to those before, under ids of their own. -/
def Adds (tuples : List Tuple) (before after : List Row) : Prop :=
  ∃ added : List Row, added.map Row.tuple = tuples ∧ after.Perm (before ++ added) ∧
    (after.map Row.rid).Nodup

def updatedRow (schema : TableSchema) (assignments : List (ByteString × Value))
    (predicate : Option Expr) (row : Row) : Row :=
  if isMatch regexMatch schema predicate row then
    { row with tuple := assignedTuple schema assignments row.tuple }
  else
    row

/-- `P` holds of the columns that the catalog has for a table, and of the file that the
table is opened from. -/
def OfTable (dbName tableName : ByteString) (e : StorageNodeEngine)
    (P : TableSchema → ℕ → Prop) : Prop :=
  ∃ descriptor file, getTable e.config.dataDir dbName tableName e.disk =
      .ok descriptor ∧
    (∀ table e₁, openTable dbName tableName e = (.ok table, e₁) → table.file = file) ∧
    P descriptor.schema file

/-- A plan has done to the rows of its table what it says, and nothing to others. -/
def Exact (e : StorageNodeEngine) (result : QueryResult) (e' : StorageNodeEngine) :
    PhysicalPlan → Prop
  | .insert dbName tableName columns rows =>
    OfTable dbName tableName e fun schema file => ∃ after,
      e'.disk.liveRows = Function.update e.disk.liveRows file after ∧
      Adds (rows.map (givenTuple schema columns)) (e.disk.liveRows file) after ∧
      result.affectedRows = rows.length
  | .update dbName tableName assignments predicate =>
    OfTable dbName tableName e fun schema file =>
      e'.disk.liveRows = Function.update e.disk.liveRows file
        ((e.disk.liveRows file).map (updatedRow regexMatch schema assignments predicate)) ∧
      result.affectedRows =
        ((e.disk.liveRows file).filter (isMatch regexMatch schema predicate)).length
  | .delete dbName tableName predicate =>
    OfTable dbName tableName e fun schema file =>
      e'.disk.liveRows = Function.update e.disk.liveRows file
        ((e.disk.liveRows file).filter fun row => !isMatch regexMatch schema predicate row) ∧
      result.affectedRows =
        ((e.disk.liveRows file).filter (isMatch regexMatch schema predicate)).length
  | _ => True

/-- The tuples that a plan writes have a value for each column of the open table. -/
def FitsColumns (e : StorageNodeEngine) : PhysicalPlan → Prop
  | .insert dbName tableName _ rows =>
    ∀ descriptor table e₁,
      getTable e.config.dataDir dbName tableName e.disk = .ok descriptor →
      openTable dbName tableName e = (.ok table, e₁) → rows ≠ [] →
      descriptor.schema.length = table.descriptor.schema.length
  | .update dbName tableName _ predicate =>
    ∀ descriptor table e₁,
      getTable e.config.dataDir dbName tableName e.disk = .ok descriptor →
      openTable dbName tableName e = (.ok table, e₁) →
      ∀ row ∈ e.disk.liveRows table.file, isMatch regexMatch descriptor.schema predicate row →
        row.tuple.length = table.descriptor.schema.length
  | _ => True

section Executions

variable {regexMatch} {db tbl : ByteString} {e e' e₁ : StorageNodeEngine}
  {result : QueryResult}

theorem liveRows_eq_update {after : List Row} (hother : OtherRows file e e')
    (hafter : e'.disk.liveRows file = after) :
    e'.disk.liveRows = Function.update e.disk.liveRows file after := by
  funext i
  by_cases hi : i = file
  · rw [hi, Function.update_self, hafter]
  · rw [Function.update_of_ne hi, hother i hi]

theorem nodup_liveRows (hc : Counted e) (file : ℕ) :
    ((e.disk.liveRows file).map Row.rid).Nodup := by
  unfold Disk.liveRows Disk.liveRowsIn
  split
  case h_1 heap hfile =>
    exact (hc.table hfile).nodup.sublist (List.Sublist.map _ List.filter_sublist)
  case h_2 => exact List.nodup_nil

theorem getTableDescriptor_ok (h : getTableDescriptor db tbl e = (.ok descriptor, e₁)) :
    e₁ = e ∧ e.started = true ∧ getTable e.config.dataDir db tbl e.disk = .ok descriptor := by
  rcases getTableDescriptor_cases db tbl e with ⟨s, herr⟩ | ⟨table, hok, hstarted, hget⟩
  · rw [herr] at h
    cases h
  · rw [hok] at h
    cases h
    exact ⟨rfl, hstarted, hget⟩

theorem scanTable_ok {rows : List Row} (hstarted : e.started = true)
    (h : scanTable db tbl e = (.ok rows, e₁)) :
    ∃ table heap, openTable db tbl e = (.ok table, e₁) ∧
      OpenAt db tbl table heap e₁ ∧ KeepsHeaps e e₁ ∧ rows = Heap.live heap.rows ∧
      e.disk.liveRows table.file = Heap.live heap.rows := by
  rcases scanTable_cases db tbl e with
    ⟨s, e₂, herr, -⟩ | ⟨table, e₂, heap, hopen, hfile, hok⟩
  · rw [herr] at h
    cases h
  · rw [hok] at h
    cases h
    obtain ⟨hat, hkeeps⟩ := StorageNodeEngine.openTable_openAt hstarted hopen hfile
    exact ⟨table, heap, hopen, hat, hkeeps, rfl, (hkeeps.rows _).symm.trans hat.liveRows_eq⟩

theorem file_of_openTable {table : OpenTableState} (h : openTable db tbl e = (.ok table, e₁)) :
    ∀ table' e₂, openTable db tbl e = (.ok table', e₂) → table'.file = table.file := by
  intro table' e₂ h'
  rw [h] at h'
  cases h'
  rfl

section Insert

variable {columns : List ByteString} {rows : List (List Value)}

theorem executeInsert_ok (hok : executeInsert db tbl columns rows e = (.ok result, e')) :
    ∃ descriptor, getTable e.config.dataDir db tbl e.disk = .ok descriptor ∧
      insertRows descriptor db tbl columns rows e = (.ok result.affectedRows, e') := by
  obtain ⟨descriptor, e₁, hget, hok₁⟩ := bind_eq_ok.mp hok
  obtain ⟨rfl, -, hdescriptor⟩ := getTableDescriptor_ok (onEngine_eq_ok.mp hget)
  obtain ⟨count, e₂, hrows, hend⟩ := bind_eq_ok.mp hok₁
  cases hend
  exact ⟨descriptor, hdescriptor, hrows⟩

theorem insertRows_opens {values : List Value} {count : ℕ}
    (hok : insertRows descriptor db tbl columns (values :: rows) e = (.ok count, e')) :
    ∃ table e₁ heap, openForChange db tbl e = (.ok table, e₁) ∧
      OpenAt db tbl table heap e₁ ∧
      insertRows descriptor db tbl columns (values :: rows) e₁ = (.ok count, e') := by
  obtain ⟨tuple, e₁, hbuild, hok₁⟩ := bind_eq_ok.mp hok
  obtain ⟨htuple, rfl⟩ := checked_eq_ok.mp hbuild
  obtain ⟨rid, e₂, hinsert, hok₂⟩ := bind_eq_ok.mp hok₁
  obtain ⟨table, e₃, heap, hopen, hat, hagain⟩ :=
    insertInternal_opens (onEngine_eq_ok.mp hinsert)
  refine ⟨table, e₃, heap, hopen, hat, bind_eq_ok.mpr ⟨tuple, e₃, ?_, ?_⟩⟩
  · exact checked_eq_ok.mpr ⟨htuple, rfl⟩
  · exact bind_eq_ok.mpr ⟨rid, e₂, onEngine_eq_ok.mpr hagain, hok₂⟩

theorem executeInsert_nil (hc : Counted e)
    (hok : executeInsert db tbl columns [] e = (.ok result, e')) :
    Exact regexMatch e result e' (.insert db tbl columns []) := by
  obtain ⟨descriptor, hdescriptor, hrows⟩ := executeInsert_ok hok
  obtain ⟨hcount, rfl⟩ := Prod.mk.inj hrows
  have hnone : result.affectedRows = 0 := (Except.ok.inj hcount).symm
  have hadds : ∀ file, Adds [] (e.disk.liveRows file) (e.disk.liveRows file) := fun file =>
    ⟨[], rfl, by simp, nodup_liveRows hc file⟩
  by_cases hopen : ∃ table e₁, openTable db tbl e = (.ok table, e₁)
  · obtain ⟨table, e₁, hopen⟩ := hopen
    exact ⟨descriptor, table.file, hdescriptor, file_of_openTable hopen,
      e.disk.liveRows table.file, (Function.update_eq_self _ _).symm, hadds _, hnone⟩
  · exact ⟨descriptor, 0, hdescriptor, fun table e₁ h => absurd ⟨table, e₁, h⟩ hopen,
      e.disk.liveRows 0, (Function.update_eq_self _ _).symm, hadds _, hnone⟩

theorem executeInsert_exact_iff (hc : Counted e) (hroom : RoomFor db tbl rows.length e)
    (hok : executeInsert db tbl columns rows e = (.ok result, e')) (hc' : Counted e') :
    Exact regexMatch e result e' (.insert db tbl columns rows) ↔
      FitsColumns regexMatch e (.insert db tbl columns rows) := by
  cases rows with
  | nil => exact iff_of_true (executeInsert_nil hc hok) fun _ _ _ _ _ hne => absurd rfl hne
  | cons values rows =>
    obtain ⟨descriptor, hdescriptor, hrows⟩ := executeInsert_ok hok
    obtain ⟨table, e₁, heap, hopenAll, hat, hrows₁⟩ := insertRows_opens hrows
    obtain ⟨e₂, hopen⟩ := StorageNodeEngine.openTable_of_openForChange hopenAll
    have hopens := (StorageNodeEngine.openForChange_opens db tbl).of_eq hopenAll
    have hsame := hopens.keeps.sameRows
    have hbefore := (hsame table.file).symm.trans hat.liveRows_eq
    obtain ⟨heap', added, hat', hother, hcount, hperm, htuples, hle⟩ :=
      insertRows_effect (getTable_nodup hdescriptor) hat
        (hroom table e₁ heap hopenAll hat.file) hrows₁
    have hall : OtherRows table.file e e' := Trans.trans (hsame.otherRows table.file) hother
    rw [← hat'.liveRows_eq, ← hbefore] at hperm
    constructor
    · rintro ⟨descriptor', file, hdescriptor', hfile, after, hafter, ⟨added', htuples', hperm', -⟩, -⟩
        descriptor'' table' e₃ hdescriptor'' hopen' -
      rw [hdescriptor] at hdescriptor' hdescriptor''
      cases hdescriptor'
      cases hdescriptor''
      rw [hopen] at hopen'
      cases hopen'
      obtain rfl := hfile table e₂ hopen
      rw [congrFun hafter table.file, Function.update_self] at hperm
      have hsameTuples : (added.map Row.tuple).Perm (added'.map Row.tuple) :=
        ((List.perm_append_left_iff _).mp (hperm.symm.trans hperm')).map _
      rw [htuples, htuples'] at hsameTuples
      have hmem := hsameTuples.mem_iff.mp (List.mem_cons_self)
      obtain ⟨values', -, heq⟩ := List.mem_map.mp hmem
      have hlength := congrArg List.length heq
      rw [TableStorage.length_padTuple (by
        rw [givenTuple, List.length_map]
        exact hle (by simp)), givenTuple, List.length_map] at hlength
      exact hlength
    · intro hfits
      have hlength := hfits descriptor table e₂ hdescriptor hopen (by simp)
      refine ⟨descriptor, table.file, hdescriptor, file_of_openTable hopen,
        e'.disk.liveRows table.file, liveRows_eq_update hall rfl,
        ⟨added, ?_, hperm, nodup_liveRows hc' _⟩, hcount⟩
      rw [htuples]
      refine List.map_congr_left fun values' _ => ?_
      exact TableStorage.padTuple_of_length (by rw [givenTuple, List.length_map, hlength])

end Insert

section Update

variable {assignments : List (ByteString × Value)} {predicate : Option Expr}

theorem executeUpdate_exact_iff (hc : Counted e)
    (hok : executeUpdate regexMatch db tbl assignments predicate e = (.ok result, e')) :
    Exact regexMatch e result e' (.update db tbl assignments predicate) ↔
      FitsColumns regexMatch e (.update db tbl assignments predicate) := by
  obtain ⟨descriptor, e₁, hget, hok₁⟩ := bind_eq_ok.mp hok
  obtain ⟨rfl, hstarted, hdescriptor⟩ := getTableDescriptor_ok (onEngine_eq_ok.mp hget)
  obtain ⟨rows, e₂, hscan, hok₂⟩ := bind_eq_ok.mp hok₁
  obtain ⟨table, heap, hopen, hat, hkeeps, rfl, hbefore⟩ :=
    scanTable_ok hstarted (onEngine_eq_ok.mp hscan)
  obtain ⟨count, e₃, hrows, hend⟩ := bind_eq_ok.mp hok₂
  cases hend
  have hc₂ : Counted e₂ := ((openTable_opens db tbl).of_eq hopen).keepsCounted hc
  obtain ⟨rfl, hupdates⟩ := updateRows_effect (getTable_nodup hdescriptor) hrows
  obtain ⟨heap', hat', hother, hlive, hle⟩ := hupdates heap hc₂ hat
  have hall : OtherRows table.file e₁ e' :=
    Trans.trans (hkeeps.rows.otherRows table.file) hother
  have hnodup := nodup_liveRows hc table.file
  rw [← hbefore] at hlive hle ⊢
  -- every scanned row is changed once
  have hafter : e'.disk.liveRows table.file = (e₁.disk.liveRows table.file).map fun row =>
      if isMatch regexMatch descriptor.schema predicate row then
        { row with
          tuple := padTuple table.descriptor.schema
            (assignedTuple descriptor.schema assignments row.tuple) }
      else
        row := by
    rw [hat'.liveRows_eq, hlive]
    exact List.map_congr_left fun row hrow => foldl_takeOver hnodup hrow
  constructor
  · rintro ⟨descriptor', file, hdescriptor', hfile, hexact, -⟩ descriptor'' table' e₄
      hdescriptor'' hopen' row hrow hmatch
    rw [hdescriptor] at hdescriptor' hdescriptor''
    cases hdescriptor'
    cases hdescriptor''
    rw [hopen] at hopen'
    cases hopen'
    obtain rfl := hfile table _ hopen
    rw [congrFun hexact table.file, Function.update_self, List.map_inj_left] at hafter
    have hsame := hafter row hrow
    rw [updatedRow, if_pos hmatch, if_pos hmatch] at hsame
    have hlength := congrArg (fun row : Row => row.tuple.length) hsame
    rw [TableStorage.length_padTuple, length_assignedTuple] at hlength
    · exact hlength
    · exact hle row (List.mem_filter.mpr ⟨hrow, hmatch⟩)
  · intro hfits
    refine ⟨descriptor, table.file, hdescriptor, file_of_openTable hopen,
      liveRows_eq_update hall ?_, rfl⟩
    rw [hafter]
    refine List.map_congr_left fun row hrow => ?_
    rw [updatedRow]
    split_ifs with hmatch
    · have hlength := hfits descriptor table e₂ hdescriptor hopen row hrow hmatch
      rw [TableStorage.padTuple_of_length]
      rw [length_assignedTuple, hlength]
    · rfl

end Update

theorem executeDelete_exact (hc : Counted e)
    (hok : executeDelete regexMatch db tbl predicate e = (.ok result, e')) :
    Exact regexMatch e result e' (.delete db tbl predicate) := by
  obtain ⟨descriptor, e₁, hget, hok₁⟩ := bind_eq_ok.mp hok
  obtain ⟨rfl, hstarted, hdescriptor⟩ := getTableDescriptor_ok (onEngine_eq_ok.mp hget)
  obtain ⟨rows, e₂, hscan, hok₂⟩ := bind_eq_ok.mp hok₁
  obtain ⟨table, heap, hopen, hat, hkeeps, rfl, hbefore⟩ :=
    scanTable_ok hstarted (onEngine_eq_ok.mp hscan)
  obtain ⟨count, e₃, hrows, hend⟩ := bind_eq_ok.mp hok₂
  cases hend
  have hc₂ : Counted e₂ := ((openTable_opens db tbl).of_eq hopen).keepsCounted hc
  obtain ⟨rfl, hdeletes⟩ := deleteRows_effect hrows
  obtain ⟨heap', hat', hother, hlive⟩ := hdeletes heap hc₂ hat
  have hall : OtherRows table.file e₁ e' :=
    Trans.trans (hkeeps.rows.otherRows table.file) hother
  rw [← hbefore] at hlive ⊢
  refine ⟨descriptor, table.file, hdescriptor, file_of_openTable hopen,
    liveRows_eq_update hall ?_, rfl⟩
  rw [hat'.liveRows_eq, hlive]
  refine List.filter_congr fun row hrow => ?_
  simp [-List.mem_map, mem_rids_filter (nodup_liveRows hc table.file) hrow]

end Executions

section Counting

variable {regexMatch} {e : StorageNodeEngine} (db tbl : ByteString)

theorem insertRows_counted {db tbl : ByteString} (hc : Counted e)
    (hroom : RoomFor db tbl rows.length e) :
    Counted (insertRows descriptor db tbl columns rows e).2 := by
  induction rows generalizing e with
  | nil => exact hc
  | cons values rows ih =>
    unfold insertRows
    rcases buildTuple descriptor.schema columns values with s | tuple
    · exact hc
    rw [bind_ok (checked_ok tuple e)]
    have hone : RoomFor db tbl 1 e := by
      intro table e₁ heap hopen hfile
      have := hroom table e₁ heap hopen hfile
      rw [List.length_cons] at this
      omega
    have hinserted := insertInternal_counted hc hone tuple true
    rcases hinsert : StorageNodeEngine.insert db tbl tuple e with ⟨s | rid, e₁⟩
    · rw [show insertInternal db tbl tuple true e = _ from hinsert] at hinserted
      rw [bind_error (onEngine_of_error hinsert)]
      exact hinserted
    · rw [show insertInternal db tbl tuple true e = _ from hinsert] at hinserted
      rw [bind_ok (onEngine_of_ok hinsert), bind_pure_snd]
      refine ih hinserted ?_
      obtain ⟨table, e₂, heap, hopen, hat, hagain⟩ := insertInternal_opens hinsert
      obtain ⟨heap', hheap, hat', -⟩ := StorageNodeEngine.insertInternal_effect hat hagain
      obtain ⟨-, -, -, hnext, -⟩ := TableStorage.insert_live hheap
      have hlt := hroom table e₂ heap hopen hat.file
      rw [List.length_cons] at hlt
      refine roomFor_of_openAt hat' ?_
      rw [hnext, Nat.mod_eq_of_lt (by omega)]
      omega

theorem executeInsert_counted {db tbl : ByteString} (hc : Counted e)
    (hroom : RoomFor db tbl rows.length e) : Counted (executeInsert db tbl columns rows e).2 := by
  unfold executeInsert
  rcases getTableDescriptor_cases db tbl e with ⟨s, hget⟩ | ⟨table, hget, -⟩
  · rw [bind_error (onEngine_of_error hget)]
    exact hc
  · rw [bind_ok (onEngine_of_ok hget), bind_pure_snd]
    exact insertRows_counted hc hroom

theorem eachMatch_keepsCounted {schema : TableSchema} {act : Row → Action Unit}
    (hact : ∀ row, Within KeepsCounted (act row)) (predicate : Option Expr) (rows : List Row) :
    Within KeepsCounted (eachMatch regexMatch schema predicate act rows) := by
  induction rows with
  | nil => exact Within.pure 0
  | cons row rows ih =>
    refine Within.bind (Within.ofExcept _) fun matched => ?_
    split_ifs
    · exact (hact row).bind fun _ => ih.bind fun _ => Within.pure _
    · exact ih

theorem command_keepsCounted {x : StorageNodeEngine.Action Unit} (h : Within KeepsCounted x) :
    Within KeepsCounted (command x) :=
  (onEngine_within h).bind fun _ => Within.pure _

theorem scanned_keepsCounted {f : TableDescriptor → List Row → Action QueryResult}
    (hf : ∀ descriptor rows, Within KeepsCounted (f descriptor rows)) :
    Within KeepsCounted (do
      let table ← onEngine (getTableDescriptor db tbl)
      let rows ← onEngine (scanTable db tbl)
      f table rows) :=
  (onEngine_within (StorageNodeEngine.getTableDescriptor_keepsCounted _ _)).bind fun table =>
    (onEngine_within (scanTable_keepsCounted _ _)).bind fun rows => hf table rows

theorem executeIndexScan_keepsCounted (indexName : ByteString) (selectAll : Bool)
    (columns : List SelectItem) (predicate : Option Expr) :
    Within KeepsCounted
      (executeIndexScan regexMatch db tbl indexName selectAll columns predicate) := by
  refine (onEngine_within (StorageNodeEngine.getTableDescriptor_keepsCounted _ _)).bind
    fun table => ?_
  cases predicate.bind extractEqualityKey with
  | none => exact Within.fail _
  | some key =>
    refine (onEngine_within ((StorageNodeEngine.getOpenedIndex_within _).bind fun file =>
      StorageNodeEngine.onIndex_keepsCounted file _)).bind fun found => ?_
    cases found with
    | none => exact Within.pure _
    | some rid =>
      exact (onEngine_within (scanTable_keepsCounted _ _)).bind fun rows =>
        (Within.ofExcept _).bind fun _ => Within.pure _

end Counting

section Runs

open StorageNodeEngine (RowCall)

/-- What happens to an engine: a plan is executed, a row is changed by a call of its
own, or the process is started again on the same files. -/
inductive PlanEvent where
  | plan (plan : PhysicalPlan)
  | call (dbName tableName : ByteString) (call : RowCall)
  | restart

def planStep (e : StorageNodeEngine) :
    PlanEvent → Except ExecError QueryResult × StorageNodeEngine
  | .plan plan => executePlan regexMatch plan e
  | .call dbName tableName call => command (call.run dbName tableName) e
  | .restart => (.ok {}, restarted e)

/-- The table has an id for each row that is inserted. -/
def HasIds (e : StorageNodeEngine) : PlanEvent → Prop
  | .plan (.insert dbName tableName _ rows) => RoomFor dbName tableName rows.length e
  | .call dbName tableName (.insert _) => RoomFor dbName tableName 1 e
  | _ => True

variable {regexMatch} {e e' : StorageNodeEngine} {result : QueryResult}

variable (regexMatch) in
theorem executePlan_counted {plan : PhysicalPlan} (hc : Counted e) (hids : HasIds e (.plan plan)) :
    Counted (executePlan regexMatch plan e).2 := by
  cases plan with
  | createDatabase dbName =>
    exact command_keepsCounted (StorageNodeEngine.createDatabase_keepsCounted _) e hc
  | dropDatabase dbName =>
    exact command_keepsCounted (StorageNodeEngine.dropDatabase_keepsCounted _) e hc
  | useDatabase dbName => exact hc
  | createTable descriptor =>
    exact command_keepsCounted (StorageNodeEngine.createTable_keepsCounted _) e hc
  | dropTable dbName tableName =>
    exact command_keepsCounted (StorageNodeEngine.dropTable_keepsCounted _ _) e hc
  | insert dbName tableName columns rows =>
    exact executeInsert_counted hc hids
  | seqScan dbName tableName selectAll columns predicate =>
    exact scanned_keepsCounted dbName tableName
      (fun _ _ => (Within.ofExcept _).bind fun _ => Within.pure _) e hc
  | indexScan dbName tableName indexName selectAll columns predicate =>
    exact executeIndexScan_keepsCounted _ _ _ _ _ _ e hc
  | update dbName tableName assignments predicate =>
    exact scanned_keepsCounted dbName tableName
      (fun _ _ => (eachMatch_keepsCounted (fun _ => (Within.ofExcept _).bind fun _ =>
        onEngine_within (StorageNodeEngine.updateInternal_keepsCounted _ _ _ _ _)) _ _).bind
          fun _ => Within.pure _) e hc
  | delete dbName tableName predicate =>
    exact scanned_keepsCounted dbName tableName
      (fun _ _ => (eachMatch_keepsCounted (fun _ => onEngine_within
        (StorageNodeEngine.deleteInternal_keepsCounted _ _ _ _)) _ _).bind
          fun _ => Within.pure _) e hc
  | revert dbName tableName timestampMs =>
    exact command_keepsCounted (RevertService.revertTableToTimestamp_keepsCounted _ _ _) e hc

theorem planStep_counted {event : PlanEvent} (hc : Counted e) (hids : HasIds e event) :
    Counted (planStep regexMatch e event).2 := by
  cases event with
  | plan plan => exact executePlan_counted regexMatch hc hids
  | restart => exact hc
  | call dbName tableName call =>
    cases call with
    | insert tuple =>
      have hinserted := insertInternal_counted hc hids tuple true
      change Counted ((onEngine _ >>= fun _ => pure _) e).2
      rw [bind_pure_snd]
      change Counted (((StorageNodeEngine.insert dbName tableName tuple) >>= fun _ => pure ()) e).2
      rw [bind_pure_snd]
      exact hinserted
    | update rid tuple =>
      exact command_keepsCounted (StorageNodeEngine.updateInternal_keepsCounted _ _ _ _ _) e hc
    | delete rid =>
      exact command_keepsCounted (StorageNodeEngine.deleteInternal_keepsCounted _ _ _ _) e hc

theorem executePlan_exact_iff {plan : PhysicalPlan} (hc : Counted e) (hids : HasIds e (.plan plan))
    (hok : executePlan regexMatch plan e = (.ok result, e')) :
    Exact regexMatch e result e' plan ↔ FitsColumns regexMatch e plan := by
  have hc' := executePlan_counted regexMatch hc hids
  rw [hok] at hc'
  cases plan with
  | insert dbName tableName columns rows => exact executeInsert_exact_iff hc hids hok hc'
  | update dbName tableName assignments predicate => exact executeUpdate_exact_iff hc hok
  | delete dbName tableName predicate => exact iff_of_true (executeDelete_exact hc hok) trivial
  | _ => exact Iff.rfl

variable (regexMatch) in
/-- In every state that is reached before a table has run out of row ids, a plan that
succeeds does what it says exactly if its tuples fit the columns of the open table. -/
theorem statements_exact_iff (config : Config) (clock : ℕ → ℤ) (events : List PlanEvent)
    (hrun : Along (planStep regexMatch) HasIds (.new config .empty clock) events)
    (plan : PhysicalPlan) (e : StorageNodeEngine)
    (he : e = finalState (planStep regexMatch) (.new config .empty clock) events)
    (hids : HasIds e (.plan plan)) (result : QueryResult) (e' : StorageNodeEngine)
    (hok : executePlan regexMatch plan e = (.ok result, e')) :
    Exact regexMatch e result e' plan ↔ FitsColumns regexMatch e plan := by
  have hnew : Counted (.new config .empty clock) := fun file content hfile => by cases hfile
  have hc : Counted e := he ▸ hrun.invariant (fun _ _ hc hids => planStep_counted hc hids) hnew
  exact executePlan_exact_iff hc hids hok

/-- The catalog's descriptor of a table `t` with the given columns. -/
def tableOf (schema : TableSchema) : TableDescriptor :=
  Planner.makeTableDescriptor (ascii "d") (ascii "t") schema

/-- A column `a` and a column `b` with a default. -/
def twoColumns : TableSchema :=
  [{ name := ascii "a" }, { name := ascii "b", defaultValue := some (.int 7) }]

def withTable : List PlanEvent :=
  [.restart, .plan (.createDatabase (ascii "d")), .plan (.createTable (tableOf twoColumns))]

/-- The table had one column when its row was inserted. -/
def recreated : List PlanEvent :=
  [.restart, .plan (.createDatabase (ascii "d")),
    .plan (.createTable (tableOf [{ name := ascii "a" }])),
    .plan (.insert (ascii "d") (ascii "t") [ascii "a"] [[.int 1]]),
    .plan (.dropTable (ascii "d") (ascii "t")), .plan (.createTable (tableOf twoColumns))]

def after (events : List PlanEvent) : StorageNodeEngine :=
  finalState (planStep noRegex) (.new {} .empty fun _ => 0) events

def insertOne : PhysicalPlan := .insert (ascii "d") (ascii "t") [ascii "a"] [[.int 1]]

def updateOne : PhysicalPlan :=
  .update (ascii "d") (ascii "t") [(ascii "a", .int 2)]
    (some (.binary .kEq (.columnRef (ascii "a")) (.literal (.int 1))))

def nextId (dbName tableName : ByteString) (e : StorageNodeEngine) : Option ℕ :=
  match openForChange dbName tableName e with
  | (.ok table, e₁) =>
    match e₁.disk.files table.file with
    | some (.table heap) => some heap.nextRowId
    | _ => none
  | _ => none

theorem roomFor_of_nextId {db tbl : ByteString} {n : ℕ} (next : ℕ)
    (h : nextId db tbl e = some next) (hn : next + n < 2 ^ 64) :
    RoomFor db tbl n e := by
  intro table e₁ heap hopen hfile
  rw [nextId, hopen] at h
  dsimp only at h
  rw [hfile] at h
  cases h
  exact hn

theorem fitsColumns_of_insert {db tbl : ByteString} (desc : TableDescriptor)
    (hget : getTable e.config.dataDir db tbl e.disk = .ok desc)
    (hopen : (openTable db tbl e).1.map OpenTableState.descriptor = .ok desc) :
    FitsColumns regexMatch e (.insert db tbl columns rows) := by
  intro descriptor table e₁ hdescriptor htable _
  rw [hget] at hdescriptor
  rw [htable] at hopen
  cases hdescriptor
  rw [Except.ok.inj hopen]

/-- The default of the column that is not named is in the new row. -/
theorem statements_exact_iff_insertOne :
    (executePlan noRegex insertOne (after withTable)).2.disk.liveRows 1 =
        [⟨0, [.int 1, .int 7], false⟩] ∧
      Exact noRegex (after withTable) { affectedRows := 1 }
        (executePlan noRegex insertOne (after withTable)).2 insertOne := by
  have hok : (executePlan noRegex insertOne (after withTable)).1 = .ok { affectedRows := 1 } := by
    decide +kernel
  have hids : HasIds (after withTable) (.plan insertOne) :=
    roomFor_of_nextId 0 (by decide +kernel) (by decide)
  have hrun : Along (planStep noRegex) HasIds (.new {} .empty fun _ => 0) withTable :=
    ⟨trivial, trivial, trivial, trivial⟩
  have hiff := statements_exact_iff noRegex {} (fun _ => 0) withTable hrun insertOne
    (after withTable) rfl hids { affectedRows := 1 }
    (executePlan noRegex insertOne (after withTable)).2 (Prod.ext hok (Eq.refl _))
  exact ⟨by decide +kernel, hiff.mpr (fitsColumns_of_insert
    (CatalogManager.normalizeTableDescriptor (ascii "./data") (tableOf twoColumns))
    (by decide +kernel) (by decide +kernel))⟩

theorem not_exact_of_longer {db tbl : ByteString} {assignments : List (ByteString × Value)}
    {row row' : Row} (hbefore : e.disk.liveRows file = [row])
    (hafter : e'.disk.liveRows file = [row']) (hlength : row.tuple.length ≠ row'.tuple.length) :
    ¬ Exact regexMatch e result e' (.update db tbl assignments predicate) := by
  rintro ⟨descriptor, file', -, -, hrows, -⟩
  have hfile := congrFun hrows file
  rw [hafter] at hfile
  by_cases hsame : file = file'
  · subst hsame
    rw [Function.update_self, hbefore] at hfile
    have hrow := (List.cons.inj hfile).1
    rw [hrow, updatedRow] at hlength
    split_ifs at hlength
    · exact hlength (length_assignedTuple _ _ _).symm
    · exact hlength rfl
  · rw [Function.update_of_ne hsame, hbefore] at hfile
    exact hlength (by rw [(List.cons.inj hfile).1])

/-- The row was stored when the table had one column. The statement assigns to this
column only, and the default of the other one is written too. -/
theorem update_fills_unassigned_column :
    (after recreated).disk.liveRows 1 = [⟨0, [.int 1], false⟩] ∧
      (executePlan noRegex updateOne (after recreated)).1 = .ok { affectedRows := 1 } ∧
      (executePlan noRegex updateOne (after recreated)).2.disk.liveRows 1 =
        [⟨0, [.int 2, .int 7], false⟩] ∧
      ¬ Exact noRegex (after recreated) { affectedRows := 1 }
        (executePlan noRegex updateOne (after recreated)).2 updateOne := by
  have hbefore : (after recreated).disk.liveRows 1 = [⟨0, [.int 1], false⟩] := by decide +kernel
  have hafter : (executePlan noRegex updateOne (after recreated)).2.disk.liveRows 1 =
      [⟨0, [.int 2, .int 7], false⟩] := by decide +kernel
  exact ⟨hbefore, by decide +kernel, hafter, not_exact_of_longer hbefore hafter (by decide)⟩

end Runs

end CourseDb.Executor

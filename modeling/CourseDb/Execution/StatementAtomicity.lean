import CourseDb.Execution.Executor
import CourseDb.Runtime.Atomicity

/-! # Statements that fail

INSERT, UPDATE and DELETE call the engine row by row and stop at the first call
that fails; nothing undoes the calls before it. A statement changes nothing if
it fails before the first call that changes something.
-/

namespace CourseDb.Executor

open Fallible (Within bind_ok bind_error ofExcept_bind bind_pure_snd)
open QueryProcessor (execute)
open StorageNodeEngine (Keeps Opens openForChange openTable InsertRefused UpdateIdle DeleteRefused
  getTableDescriptor ensureStarted_eq scanTable openTable_opens onTable_of_same openForChange_ok
  openForChange_opens onTable_cases)

variable (regexMatch : RegexMatch) {rows : List Row} {table : TableDescriptor}
  {e : StorageNodeEngine}

section Conditions

variable (dbName tableName : ByteString) (e : StorageNodeEngine)

/-- There is no row to insert, or the first one is refused. -/
def InsertChangesNothing (columns : List ByteString) (rows : List (List Value)) : Prop :=
  ∀ table values tuple,
    CatalogManager.getTable e.config.dataDir dbName tableName e.disk = .ok table →
    rows.head? = some values → buildTuple table.schema columns values = .ok tuple →
    InsertRefused dbName tableName tuple e

/-- The rows that match, up to the first one that is refused, are already as the
UPDATE makes them. -/
def UpdateRowsIdle (schema storageSchema : TableSchema) (heap : Heap)
    (assignments : List (ByteString × Value)) (predicate : Option Expr) : List Row → Prop
  | [] => True
  | row :: rows =>
    match matchesRow regexMatch schema predicate row with
    | .error _ => True
    | .ok false => UpdateRowsIdle schema storageSchema heap assignments predicate rows
    | .ok true =>
      match assign schema assignments row.tuple with
      | .error _ => True
      | .ok tuple =>
        (∃ s, (TableStorage.update storageSchema row.rid tuple heap).1 = .error s) ∨
          (TableStorage.update storageSchema row.rid tuple heap).2.rows = heap.rows ∧
            UpdateRowsIdle schema storageSchema heap assignments predicate rows

def UpdateChangesNothing (assignments : List (ByteString × Value)) (predicate : Option Expr) :
    Prop :=
  ∀ table state e' heap,
    CatalogManager.getTable e.config.dataDir dbName tableName e.disk = .ok table →
    openForChange dbName tableName e = (.ok state, e') →
    e'.disk.files state.file = some (.table heap) →
    UpdateRowsIdle regexMatch table.schema state.descriptor.schema heap assignments predicate
      (Heap.live heap.rows)

/-- The first row that matches is refused. -/
def DeleteRowsRefused (schema : TableSchema) (predicate : Option Expr) : List Row → Prop
  | [] => True
  | row :: rows =>
    match matchesRow regexMatch schema predicate row with
    | .error _ => True
    | .ok false => DeleteRowsRefused schema predicate rows
    | .ok true => DeleteRefused dbName tableName row.rid e

def DeleteChangesNothing (predicate : Option Expr) : Prop :=
  ∀ table state e' heap,
    CatalogManager.getTable e.config.dataDir dbName tableName e.disk = .ok table →
    openTable dbName tableName e = (.ok state, e') →
    e'.disk.files state.file = some (.table heap) →
    DeleteRowsRefused regexMatch dbName tableName e table.schema predicate (Heap.live heap.rows)

end Conditions

/-- The statement is refused by the planner or changes no row. -/
def StatementChangesNothing (currentDb : ByteString) (stmt : SqlStatement)
    (e : StorageNodeEngine) : Prop :=
  (∃ status, Planner.buildPhysicalPlan e.config.dataDir e.disk currentDb stmt = .error status) ∨
    match stmt with
    | .insert databaseName tableName columns rows =>
      InsertChangesNothing (resolveDb currentDb databaseName) tableName e columns rows
    | .update databaseName tableName assignments condition =>
      UpdateChangesNothing regexMatch (resolveDb currentDb databaseName) tableName e assignments
        (some condition)
    | .delete databaseName tableName condition =>
      DeleteChangesNothing regexMatch (resolveDb currentDb databaseName) tableName e
        (some condition)
    | _ => True

section Engine

variable {α : Type} {e e' : StorageNodeEngine} {db tbl : ByteString}
  {x : StorageNodeEngine.Action α}

theorem onEngine_within {R : StorageNodeEngine → StorageNodeEngine → Prop} (h : Within R x) :
    Within R (onEngine x) := fun e => h e

theorem checked_ok (a : α) (e : StorageNodeEngine) : checked (.ok a) e = (.ok a, e) := rfl

theorem onEngine_of_ok {a : α} (h : x e = (.ok a, e')) : onEngine x e = (.ok a, e') := by
  rw [onEngine, h]
  rfl

theorem onEngine_of_error {s : Status} (h : x e = (.error s, e')) :
    onEngine x e = (.error (.status s), e') := by
  rw [onEngine, h]
  rfl

theorem getTableDescriptor_cases (db tbl : ByteString) (e : StorageNodeEngine) :
    (∃ s, getTableDescriptor db tbl e = (.error s, e)) ∨
      ∃ table, getTableDescriptor db tbl e = (.ok table, e) ∧
        e.started = true ∧
        CatalogManager.getTable e.config.dataDir db tbl e.disk = .ok table := by
  unfold getTableDescriptor
  have hstart := ensureStarted_eq e
  by_cases hstarted : e.started
  · rw [if_pos hstarted] at hstart
    rw [bind_ok hstart, StorageNodeEngine.loadTableDescriptor_eq]
    rcases CatalogManager.getTable e.config.dataDir db tbl e.disk with s | table
    · exact .inl ⟨s, rfl⟩
    · exact .inr ⟨table, rfl, hstarted, rfl⟩
  · rw [if_neg hstarted] at hstart
    exact .inl ⟨_, bind_error hstart⟩

/-- A scan opens the table and returns the rows it finds there. -/
theorem scanTable_cases (db tbl : ByteString) (e : StorageNodeEngine) :
    (∃ s e', scanTable db tbl e = (.error s, e') ∧ Opens e e') ∨
      ∃ state e' heap, openTable db tbl e = (.ok state, e') ∧
        e'.disk.files state.file = some (.table heap) ∧
        scanTable db tbl e = (.ok (Heap.live heap.rows), e') := by
  unfold scanTable
  have hstart := ensureStarted_eq e
  by_cases hstarted : e.started
  · rw [if_pos hstarted] at hstart
    rw [bind_ok hstart]
    have hopens := openTable_opens db tbl e
    rcases hopen : openTable db tbl e with ⟨s | state, e'⟩
    · rw [hopen] at hopens
      exact .inl ⟨s, e', bind_error hopen, hopens⟩
    · rw [hopen] at hopens
      rw [bind_ok hopen]
      rcases onTable_cases state.file e' with ⟨heap, hfile⟩ | hnone
      · rcases Heap.scan_cases heap with ⟨s, hscan⟩ | hscan
        · exact .inl ⟨s, e', onTable_of_same hfile hscan, hopens⟩
        · exact .inr ⟨state, e', heap, rfl, hfile, onTable_of_same hfile hscan⟩
      · exact .inl ⟨_, e', hnone _, hopens⟩
  · rw [if_neg hstarted] at hstart
    exact .inl ⟨_, e, bind_error hstart, refl e⟩

theorem scanned_keeps {f : TableDescriptor → List Row → Action QueryResult}
    (hf : ∀ table state e₁ heap, e.started = true →
      CatalogManager.getTable e.config.dataDir db tbl e.disk = .ok table →
      openTable db tbl e = (.ok state, e₁) → e₁.disk.files state.file = some (.table heap) →
      Keeps e₁ (f table (Heap.live heap.rows) e₁).2) :
    Keeps e ((do
      let table ← onEngine (getTableDescriptor db tbl)
      let rows ← onEngine (scanTable db tbl)
      f table rows : Action QueryResult) e).2 := by
  rcases getTableDescriptor_cases db tbl e with ⟨s, htable⟩ | ⟨table, htable, hstarted, hget⟩
  · rw [bind_error (onEngine_of_error htable)]
    exact refl e
  · rw [bind_ok (onEngine_of_ok htable)]
    rcases scanTable_cases db tbl e with
      ⟨s, e₁, hscan, hopens⟩ | ⟨state, e₁, heap, hopen, hfile, hscan⟩
    · rw [bind_error (onEngine_of_error hscan)]
      exact hopens.keeps
    · rw [bind_ok (onEngine_of_ok hscan)]
      have hopens := (openTable_opens db tbl).of_eq hopen
      exact Trans.trans hopens.keeps (hf table state e₁ heap hstarted hget hopen hfile)

end Engine

section Insert

variable {e : StorageNodeEngine} {db tbl : ByteString}

theorem executeInsert_keeps {columns : List ByteString} {rows : List (List Value)}
    (h : InsertChangesNothing db tbl e columns rows) :
    Keeps e (executeInsert db tbl columns rows e).2 := by
  unfold executeInsert
  rcases getTableDescriptor_cases db tbl e with ⟨s, htable⟩ | ⟨table, htable, -, hget⟩
  · rw [bind_error (onEngine_of_error htable)]
    exact refl e
  · rw [bind_ok (onEngine_of_ok htable)]
    cases rows with
    | nil => exact refl e
    | cons values rows =>
      rcases hbuild : buildTuple table.schema columns values with s | tuple
      · have hrows : insertRows table db tbl columns (values :: rows) e =
            (.error (.status s), e) := by
          rw [insertRows, hbuild]
          rfl
        rw [bind_error hrows]
        exact refl e
      · obtain ⟨s, herr, hopens⟩ :=
          StorageNodeEngine.insertInternal_refused (h table values tuple hget rfl hbuild) true
        have hcall : StorageNodeEngine.insert db tbl tuple e =
            (.error s, (StorageNodeEngine.insert db tbl tuple e).2) := Prod.ext herr rfl
        have hrows : insertRows table db tbl columns (values :: rows) e =
            (.error (.status s), (StorageNodeEngine.insert db tbl tuple e).2) := by
          rw [insertRows, hbuild]
          exact (bind_ok (checked_ok tuple e)).trans
            (bind_error (onEngine_of_error hcall))
        rw [bind_error hrows]
        exact hopens.keeps

end Insert

section Update

variable {regexMatch} {db tbl : ByteString} {schema storageSchema : TableSchema}
  {assignments : List (ByteString × Value)} {predicate : Option Expr}

theorem UpdateRowsIdle.congr {heap heap' : Heap}
    (h : UpdateRowsIdle regexMatch schema storageSchema heap assignments predicate rows)
    (hrows : heap'.rows = heap.rows) (hsize : heap'.pageSize = heap.pageSize) :
    UpdateRowsIdle regexMatch schema storageSchema heap' assignments predicate rows := by
  induction rows with
  | nil => trivial
  | cons row rows ih =>
    unfold UpdateRowsIdle at h ⊢
    rcases hmatch : matchesRow regexMatch schema predicate row with s | _ | _
    · trivial
    · rw [hmatch] at h
      exact ih h
    · rcases hassign : assign schema assignments row.tuple with s | tuple
      · trivial
      · simp only [hmatch, hassign] at h
        obtain ⟨hresult, hafter⟩ :=
          TableStorage.update_congr storageSchema row.rid tuple hrows hsize
        dsimp only
        rw [hresult, hafter, hrows]
        exact h.imp_right fun ⟨hidle, hrest⟩ => ⟨hidle, ih hrest⟩

theorem openForChange_again {e' : StorageNodeEngine} {state state' : OpenTableState}
    {heap heap' : Heap}
    (hcache : e.openedTables (StorageNodeEngine.makeTableCacheKey db tbl) = some state)
    (hfile : e.disk.files state.file = some (.table heap))
    (hopen : openForChange db tbl e = (.ok state', e'))
    (hfile' : e'.disk.files state'.file = some (.table heap')) : state = state' ∧ heap = heap' := by
  obtain ⟨-, -, hstate⟩ := openForChange_ok hopen
  obtain rfl := hstate state hcache
  have hkept := ((openForChange_opens db tbl).of_eq hopen).disk.files hfile
  rw [hfile'] at hkept
  cases hkept
  exact ⟨rfl, rfl⟩

theorem updateRows_keeps
    (h : ∀ state e' heap, openForChange db tbl e = (.ok state, e') →
      e'.disk.files state.file = some (.table heap) →
      UpdateRowsIdle regexMatch table.schema state.descriptor.schema heap assignments predicate
        rows) :
    Keeps e (updateRows regexMatch table db tbl assignments predicate rows e).2 := by
  induction rows generalizing e with
  | nil => exact refl e
  | cons row rows ih =>
    unfold updateRows eachMatch
    unfold UpdateRowsIdle at h
    rcases hmatch : matchesRow regexMatch table.schema predicate row with s | _ | _
    · exact refl e
    · simp only [hmatch] at h
      exact ih h
    · rw [bind_ok (checked_ok true e), if_pos rfl]
      rcases hassign : assign table.schema assignments row.tuple with s | tuple
      · exact refl e
      · simp only [hmatch, hassign] at h
        rw [ofExcept_bind rfl]
        have hidle : UpdateIdle db tbl row.rid tuple e := by
          intro state e' heap hopen hfile
          rcases h state e' heap hopen hfile with ⟨s, hs⟩ | ⟨hsame, -⟩
          · exact TableStorage.update_rows_of_error hs
          · exact hsame
        have hkeeps : Keeps (openForChange db tbl e).2
            (StorageNodeEngine.update db tbl row.rid tuple e).2 :=
          (StorageNodeEngine.updateInternal_idle hidle true).1
        have hopens := (openForChange_opens db tbl e).keeps
        rcases hcall : StorageNodeEngine.update db tbl row.rid tuple e with ⟨s | ⟨⟩, e₁⟩
        · rw [bind_error (onEngine_of_error hcall)]
          rw [hcall] at hkeeps
          exact Trans.trans hopens hkeeps
        · rw [bind_ok (onEngine_of_ok hcall), bind_pure_snd]
          rw [hcall] at hkeeps
          refine Trans.trans (Trans.trans hopens hkeeps) (ih ?_)
          intro state₂ e₂ heap₂ hopen₂ hfile₂
          obtain ⟨state, e', heap, hopen, hfile, hok⟩ := StorageNodeEngine.updateInternal_ok hcall
          rw [hopen] at hkeeps
          -- the call has stored the table as it was, so the next call meets the same rows
          obtain ⟨heap₁, hfile₁, hrows, hsize⟩ := hkeeps.disk.tables hfile
          obtain ⟨-, hcache, -⟩ := openForChange_ok hopen
          obtain ⟨rfl, rfl⟩ := openForChange_again (hkeeps.tables hcache) hfile₁ hopen₂ hfile₂
          rcases h state e' heap hopen hfile with ⟨s, hs⟩ | ⟨-, hrest⟩
          · rw [hok] at hs
            cases hs
          · exact hrest.congr hrows hsize

theorem executeUpdate_keeps (h : UpdateChangesNothing regexMatch db tbl e assignments predicate) :
    Keeps e (executeUpdate regexMatch db tbl assignments predicate e).2 := by
  refine scanned_keeps fun table state e₁ heap hstarted hget hopen hfile => ?_
  rw [bind_pure_snd]
  refine updateRows_keeps fun state' e' heap' hopen' hfile' => ?_
  obtain ⟨rfl, rfl⟩ :=
    openForChange_again (StorageNodeEngine.openTable_caches hopen) hfile hopen' hfile'
  rw [StorageNodeEngine.openForChange_after_openTable hstarted hopen] at hopen'
  exact h table state e' heap hget hopen' hfile'

end Update

section Delete

variable {regexMatch} {db tbl : ByteString} {predicate : Option Expr}
  {state : OpenTableState} {e₁ : StorageNodeEngine}

theorem deleteRows_keeps (hstarted : e.started = true)
    (hopen : openTable db tbl e = (.ok state, e₁))
    (h : DeleteRowsRefused regexMatch db tbl e table.schema predicate rows) :
    Keeps e₁ (deleteRows regexMatch table db tbl predicate rows e₁).2 := by
  induction rows with
  | nil => exact refl e₁
  | cons row rows ih =>
    unfold deleteRows eachMatch
    unfold DeleteRowsRefused at h
    rcases hmatch : matchesRow regexMatch table.schema predicate row with s | _ | _
    · exact refl e₁
    · simp only [hmatch] at h
      exact ih h
    · simp only [hmatch] at h
      -- opening the table before does not change what is refused
      rw [DeleteRefused, ← StorageNodeEngine.openForChange_after_openTable hstarted hopen] at h
      obtain ⟨s, herr, hopens⟩ := StorageNodeEngine.deleteInternal_refused h true
      have hcall : StorageNodeEngine.delete db tbl row.rid e₁ =
          (.error s, (StorageNodeEngine.delete db tbl row.rid e₁).2) := Prod.ext herr rfl
      rw [bind_ok (checked_ok true e₁), if_pos rfl,
        bind_error (onEngine_of_error hcall)]
      exact hopens.keeps

theorem executeDelete_keeps (h : DeleteChangesNothing regexMatch db tbl e predicate) :
    Keeps e (executeDelete regexMatch db tbl predicate e).2 := by
  refine scanned_keeps fun table state e₁ heap hstarted hget hopen hfile => ?_
  rw [bind_pure_snd]
  exact deleteRows_keeps hstarted hopen (h table state e₁ heap hget hopen hfile)

end Delete

section Statements

variable {regexMatch} {currentDb : ByteString} {stmt : SqlStatement} {e : StorageNodeEngine}

def changesRows : SqlStatement → Bool
  | .insert _ _ _ _ | .update _ _ _ _ | .delete _ _ _ => true
  | _ => false

theorem executePlan_keeps {plan : PhysicalPlan} (hkind : changesRows stmt = true)
    (hplan : Planner.buildPhysicalPlan e.config.dataDir e.disk currentDb stmt = .ok plan)
    (h : StatementChangesNothing regexMatch currentDb stmt e) :
    Keeps e (executePlan regexMatch plan e).2 := by
  rcases h with ⟨status, herr⟩ | h
  · rw [herr] at hplan
    cases hplan
  · cases stmt with
    | insert db tableName columns rows =>
      rw [Planner.buildPhysicalPlan_insert hplan]
      exact executeInsert_keeps h
    | update db tableName assignments condition =>
      rw [Planner.buildPhysicalPlan_update hplan]
      exact executeUpdate_keeps h
    | delete db tableName condition =>
      rw [Planner.buildPhysicalPlan_delete hplan]
      exact executeDelete_keeps h
    | _ => cases hkind

theorem run_keeps (hkind : changesRows stmt = true)
    (h : StatementChangesNothing regexMatch currentDb stmt e) :
    Keeps e (run regexMatch currentDb stmt e).2 := by
  unfold run
  rcases hplan : Planner.buildPhysicalPlan e.config.dataDir e.disk currentDb stmt with s | plan
  · exact refl e
  · have hkeeps := executePlan_keeps hkind hplan h
    dsimp only
    rcases hexec : executePlan regexMatch plan e with ⟨error | result, e'⟩
    · rw [hexec] at hkeeps
      exact hkeeps
    · rw [hexec] at hkeeps
      exact hkeeps

end Statements

section Runs

variable (mktime : Parser.Mktime)

/-- What happens to a database: a text is executed with a current database, or the
process is started again on the same files. -/
inductive Event where
  | execute (sql currentDb : ByteString)
  | restart

def restarted (e : StorageNodeEngine) : StorageNodeEngine :=
  { StorageNodeEngine.new e.config e.disk e.clock with started := true }

def step (e : StorageNodeEngine) : Event → Option QueryResult × StorageNodeEngine
  | .execute sql currentDb =>
    let r := execute (runner regexMatch mktime) sql currentDb e
    (some r.1, r.2.2)
  | .restart => (none, restarted e)

/-- If the text is not one of a statement that changes no rows and its result is
not ok, then every table has the rows and every index the keys that it had. -/
def AllOrNothing (e : StorageNodeEngine) : Event → Prop
  | .execute sql currentDb =>
    (∀ stmt, Parser.parse mktime sql = .ok stmt → changesRows stmt = true) →
      (execute (runner regexMatch mktime) sql currentDb e).1.ok = false →
      e.disk.SameContents (step regexMatch mktime e (.execute sql currentDb)).2.disk
  | .restart => True

/-- A statement that changes rows and fails is one that changes nothing. -/
def FailsEarly (e : StorageNodeEngine) : Event → Prop
  | .execute sql currentDb =>
    ∀ stmt, Parser.parse mktime sql = .ok stmt → changesRows stmt = true →
      (execute (runner regexMatch mktime) sql currentDb e).1.ok = false →
      StatementChangesNothing regexMatch currentDb stmt e
  | .restart => True

variable {regexMatch mktime}

theorem step_allOrNothing {event : Event} (h : FailsEarly regexMatch mktime e event) :
    AllOrNothing regexMatch mktime e event := by
  cases event with
  | restart => trivial
  | execute sql currentDb =>
    intro hkinds hfailed
    change e.disk.SameContents
      (execute (runner regexMatch mktime) sql currentDb e).2.2.disk
    rcases hparse : Parser.parse mktime sql with failure | stmt
    · rw [execute,
        show Parser.parse (runner regexMatch mktime).mktime sql = _ from hparse]
      exact .rfl
    · have hkind := hkinds stmt hparse
      rw [QueryProcessor.execute_of_ne_useDatabase (runner regexMatch mktime) hparse
        (by rintro name rfl; cases hkind)]
      exact (run_keeps hkind (h stmt hparse hkind hfailed)).disk

/-- In a run in which every failing statement fails early, every failing
statement leaves the rows and the keys as they were. -/
theorem statements_allOrNothing (events : List Event) (e : StorageNodeEngine)
    (h : Along (step regexMatch mktime) (FailsEarly regexMatch mktime) e events) :
    Along (step regexMatch mktime) (AllOrNothing regexMatch mktime) e events :=
  h.imp (I := fun _ => True) (fun _ _ _ hearly => ⟨step_allOrNothing hearly, trivial⟩) trivial

def noRegex : RegexMatch := fun _ _ => none

def noTime : Parser.Mktime := fun _ => none

def inD (sql : String) : Event := .execute (ascii sql) (ascii "d")

def blankEngine : StorageNodeEngine := restarted (.new {} .empty fun _ => 0)

/-- The engine with one row in a table that has an index. -/
def withRow : StorageNodeEngine :=
  finalState (step noRegex noTime) blankEngine
    [inD "CREATE DATABASE d;", inD "CREATE TABLE t (id INT NOT_NULL INDEXED);",
      inD "INSERT INTO t (id) VALUE (1);"]

theorem statements_allOrNothing_refused :
    Along (step noRegex noTime) (FailsEarly noRegex noTime) withRow
        [inD "INSERT INTO t (id, id) VALUE (2, 3), (4, 5);", .restart] ∧
      (execute (runner noRegex noTime) (ascii "INSERT INTO t (id, id) VALUE (2, 3), (4, 5);")
        (ascii "d") withRow).1.ok = false ∧
      Along (step noRegex noTime) (AllOrNothing noRegex noTime) withRow
        [inD "INSERT INTO t (id, id) VALUE (2, 3), (4, 5);", .restart] := by
  have hinsert : Parser.parse noTime (ascii "INSERT INTO t (id, id) VALUE (2, 3), (4, 5);") =
      .ok (.insert [] (ascii "t") [ascii "id", ascii "id"] [[.int 2, .int 3], [.int 4, .int 5]]) := by
    decide +kernel
  have hbuild : (CatalogManager.getTable withRow.config.dataDir (ascii "d") (ascii "t")
      withRow.disk >>= fun table => buildTuple table.schema [ascii "id", ascii "id"]
        [.int 2, .int 3]).isOk = false := by decide +kernel
  have h : Along (step noRegex noTime) (FailsEarly noRegex noTime) withRow
      [inD "INSERT INTO t (id, id) VALUE (2, 3), (4, 5);", .restart] := by
    refine ⟨fun stmt hparse _ _ => ?_, trivial, trivial⟩
    rw [hinsert] at hparse
    cases hparse
    right
    intro table values tuple htable hvalues htuple
    cases hvalues
    rw [show CatalogManager.getTable _ (ascii "d") (ascii "t") withRow.disk = _ from htable] at hbuild
    simp only [bind, Except.bind, htuple] at hbuild
    cases hbuild
  exact ⟨h, by decide +kernel, statements_allOrNothing _ _ h⟩

/-- The first row of a failed INSERT stays, and so does the row whose key was refused. -/
theorem statements_keep_rows_of_failed_insert :
    (execute (runner noRegex noTime) (ascii "INSERT INTO t (id) VALUE (2), (1);")
        (ascii "d") withRow).1.ok = false ∧
      withRow.disk.liveRows 2 = [⟨0, [.int 1], false⟩] ∧
      (step noRegex noTime withRow (inD "INSERT INTO t (id) VALUE (2), (1);")).2.disk.liveRows 2 =
        [⟨0, [.int 1], false⟩, ⟨1, [.int 2], false⟩, ⟨2, [.int 1], false⟩] ∧
      ¬ AllOrNothing noRegex noTime withRow (inD "INSERT INTO t (id) VALUE (2), (1);") := by
  have hfailed : (execute (runner noRegex noTime)
      (ascii "INSERT INTO t (id) VALUE (2), (1);") (ascii "d") withRow).1.ok = false := by
    decide +kernel
  have hbefore : withRow.disk.liveRows 2 = [⟨0, [.int 1], false⟩] := by decide +kernel
  have hafter :
      (step noRegex noTime withRow (inD "INSERT INTO t (id) VALUE (2), (1);")).2.disk.liveRows 2 =
        [⟨0, [.int 1], false⟩, ⟨1, [.int 2], false⟩, ⟨2, [.int 1], false⟩] := by decide +kernel
  have hinsert : Parser.parse noTime (ascii "INSERT INTO t (id) VALUE (2), (1);") =
      .ok (.insert [] (ascii "t") [ascii "id"] [[.int 2], [.int 1]]) := by decide +kernel
  refine ⟨hfailed, hbefore, hafter, fun h => ?_⟩
  have hsame := (h (fun stmt hparse => by rw [hinsert] at hparse; cases hparse; rfl)
    hfailed).liveRows 2
  rw [hbefore] at hsame
  exact absurd (hafter.symm.trans hsame) (by decide)

end Runs

end CourseDb.Executor

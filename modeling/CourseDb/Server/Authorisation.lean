import CourseDb.Queue.TaskQueueRuns
import CourseDb.Server.Privileges

/-! # Authorised execution

A statement reaches the query processor directly or through the task queue. The
permission of a direct statement is checked; of a submitted query only the
submission is checked, and not the query.
-/

namespace CourseDb

open Fallible (read_bind bind_ok bind_apply modify_apply pure_apply)

namespace TaskQueue

variable {P : TaskInfo → Prop} {q : TaskQueue} (cfg : Config)

/-- Every task of the queue, waiting, known or executing, meets `P`. -/
structure Every (P : TaskInfo → Prop) (q : TaskQueue) : Prop where
  waiting : ∀ t ∈ q.pendingQueue, P t
  known : ∀ id t, q.taskMap.lookup id = some t → P t
  executing : ∀ t ∈ q.executing, P t

theorem Every.mono {Q : TaskInfo → Prop} (h : Every P q) (hPQ : ∀ t, P t → Q t) : Every Q q :=
  ⟨fun t ht => hPQ t (h.waiting t ht), fun id t ht => hPQ t (h.known id t ht),
    fun t ht => hPQ t (h.executing t ht)⟩

theorem Every.insert_known (h : Every P q) {id : ByteString} {task : TaskInfo} (htask : P task) :
    ∀ id' t, (q.taskMap.insert id task).lookup id' = some t → P t := by
  intro id' t ht
  by_cases hid : id' = id
  · subst hid
    rw [AList.lookup_insert] at ht
    cases ht
    exact htask
  · rw [AList.lookup_insert_ne hid] at ht
    exact h.known id' t ht

theorem appendWal_state (opens : Bool) (info : TaskInfo) (q : TaskQueue) :
    ∃ wal, (appendWal cfg opens info q).2 = { q with wal } := by
  cases opens with
  | true => exact ⟨_, rfl⟩
  | false => exact ⟨q.wal, rfl⟩

theorem Every.wal (h : Every P q) (wal : Option (List TaskInfo)) : Every P { q with wal } :=
  ⟨h.waiting, h.known, h.executing⟩

theorem Every.appendWal (h : Every P q) (opens : Bool) (info : TaskInfo) :
    Every P (appendWal cfg opens info q).2 := by
  obtain ⟨wal, hwal⟩ := appendWal_state cfg opens info q
  rw [hwal]
  exact h.wal wal

theorem Every.submit (h : Every P q) (opens : Bool) (id sql database user : ByteString) (now : ℤ)
    (hnew : (submit cfg opens id sql database user now q).1.toBool = true →
      P { requestId := id, sql, database, userId := user, submittedMs := now }) :
    Every P (submit cfg opens id sql database user now q).2 := by
  rw [TaskQueue.submit, read_bind] at hnew ⊢
  split_ifs at hnew ⊢ with hfull
  · exact h
  · cases opens with
    | false => exact h
    | true =>
      have htask := hnew rfl
      refine ⟨?_, ?_, h.executing⟩
      · intro t ht
        rcases List.mem_append.mp ht with ht | ht
        · exact h.waiting t ht
        · rw [List.mem_singleton.mp ht]
          exact htask
      · exact h.insert_known htask

/-- The tasks differ at most in what the queue changes of a task. -/
structure SameQuery (t t' : TaskInfo) : Prop where
  requestId : t'.requestId = t.requestId
  sql : t'.sql = t.sql
  database : t'.database = t.database
  userId : t'.userId = t.userId

variable (hP : ∀ t t', SameQuery t t' → P t → P t')

include hP

theorem Every.cancel (h : Every P q) (opens : Bool) (id : ByteString) (now : ℤ) :
    Every P (cancel cfg opens id now q).2 := by
  rw [TaskQueue.cancel, getStatus, bind_apply, read_bind]
  cases hlookup : q.taskMap.lookup id with
  | none => exact h
  | some task =>
    simp only [pure_apply]
    split_ifs with hterminal
    · exact h
    · have htask : P { task with status := .kCancelled, finishedMs := now } :=
        hP task _ ⟨rfl, rfl, rfl, rfl⟩ (h.known id task hlookup)
      rw [bind_ok (modify_apply _ q)]
      apply Every.appendWal
      refine ⟨?_, h.insert_known htask, h.executing⟩
      intro t ht
      exact h.waiting t (List.mem_of_mem_eraseP ht)

theorem Every.pickUp (h : Every P q) (opens : Bool) (now : ℤ) :
    Every P (pickUp cfg opens now q) := by
  rw [TaskQueue.pickUp]
  cases hpending : q.pendingQueue with
  | nil => exact h
  | cons task rest =>
    have hwaiting : ∀ t ∈ rest, P t := fun t ht =>
      h.waiting t (hpending ▸ List.mem_cons_of_mem task ht)
    have hpicked : ∀ t', P t' → ∀ t ∈ q.executing ++ [t'], P t := by
      intro t' ht' t ht
      rcases List.mem_append.mp ht with ht | ht
      · exact h.executing t ht
      · rw [List.mem_singleton.mp ht]
        exact ht'
    dsimp only
    split_ifs with hidle
    · cases hlookup : q.taskMap.lookup task.requestId with
      | none =>
        have hbase : Every P { q with pendingQueue := rest } := ⟨hwaiting, h.known, h.executing⟩
        have hlogged := hbase.appendWal cfg opens task
        exact ⟨hlogged.waiting, hlogged.known,
          hpicked task (h.waiting task (hpending ▸ List.mem_cons_self))⟩
      | some known =>
        dsimp only
        split_ifs with hcancelled
        · exact ⟨hwaiting, h.known, h.executing⟩
        · have htask : P { known with status := .kRunning, startedMs := now } :=
            hP known _ ⟨rfl, rfl, rfl, rfl⟩ (h.known _ known hlookup)
          have hbase : Every P { q with
              pendingQueue := rest
              taskMap := q.taskMap.insert task.requestId
                { known with status := .kRunning, startedMs := now } } :=
            ⟨hwaiting, h.insert_known htask, h.executing⟩
          have hlogged := hbase.appendWal cfg opens
            { known with status := .kRunning, startedMs := now }
          exact ⟨hlogged.waiting, hlogged.known, hpicked _ htask⟩
    · exact h

omit hP in
theorem Every.evict (h : Every P q) (iteration : TaskIteration)
    (id : ByteString) : Every P (evict iteration id q) := by
  rw [TaskQueue.evict]
  split_ifs with hfull
  · cases iteration.order q.taskMap.entries with
    | nil => exact h
    | cons oldest rest =>
      dsimp only
      split_ifs with hdrop
      · exact ⟨h.waiting, fun id' t ht => h.known id' t (lookup_erase_some ht).2, h.executing⟩
      · exact h
  · exact h

omit hP in
theorem finished_sameQuery (t : TaskInfo) (outcome : Outcome) (now : ℤ) :
    SameQuery t (finished t outcome now) := by
  cases outcome <;> exact ⟨rfl, rfl, rfl, rfl⟩

theorem Every.finish (h : Every P q) (opens : Bool)
    (iteration : TaskIteration) (i : ℕ) (outcome : Outcome) (now : ℤ) :
    Every P (finish cfg opens iteration i outcome now q) := by
  rw [TaskQueue.finish]
  cases hi : q.executing[i]? with
  | none => exact h
  | some task =>
    have hbase : ∀ workers, Every P { q with executing := q.executing.eraseIdx i, workers } :=
      fun workers => ⟨h.waiting, h.known, fun t ht => h.executing t (List.mem_of_mem_eraseIdx ht)⟩
    dsimp only
    cases hlookup : q.taskMap.lookup task.requestId with
    | none => exact hbase _
    | some known =>
      by_cases hcancelled : known.status = .kCancelled
      · simp only [hcancelled, if_true]
        exact hbase _
      · have htask : P (finished known outcome now) :=
          hP known _ (finished_sameQuery known outcome now) (h.known _ known hlookup)
        simp only [hcancelled, if_false]
        apply Every.evict
        apply Every.appendWal
        exact ⟨h.waiting, h.insert_known htask, (hbase 0).executing⟩

end TaskQueue

namespace StorageService

open Framing (Session)

variable {δ : Type} (w : ServiceWorld δ) {env : ServiceEnv} {req : Request} {s : StorageService δ}
  {stmt : SqlStatement} {ctx : SessionContext} {e : Event}

/-- The user holds the permission that the text requires, if it requires one. -/
def Entitled (rbac : RbacStore) (userId sql : ByteString) : Prop :=
  ∀ stmt perm, Parser.parse w.runner.mktime sql = .ok stmt →
    requiredPermission stmt.kind = some perm → rbac.hasPermission userId perm = true

/-- If the submitter was authenticated, the query was one the submitter could run. -/
def Justified (a : Acceptance) : Prop :=
  a.context.authenticated = true → Entitled w a.rbac a.context.userId a.sql

/-- The submission that a task comes from. -/
structure Origin (s : StorageService δ) (t : TaskInfo) (a : Acceptance) : Prop where
  mem : a ∈ s.accepted
  taskId : a.taskId = t.requestId
  sql : a.sql = t.sql
  database : a.context.currentDb = t.database
  userId : a.context.userId = t.userId

/-- Whatever the query processor is called with is something that the user it acts for
was allowed when the request, or the submission of the task, was accepted. -/
def Authorised (s : StorageService δ) : Event → Prop
  | .request env remoteAddr req =>
    let reply := (handleRequest w env (sessionOf remoteAddr req) req s).1
    ∀ sql, reply.executed = some sql → reply.context.authenticated = true →
      Entitled w s.rbac reply.context.userId sql
  | .runTask _ _ i => ∀ task, s.taskQueue.executing[i]? = some task →
      ∃ a, Origin s task a ∧ Justified w a
  | .pickUp _ => True

/-- An authenticated session names a user, and submits only what the user could run. -/
def Checked (s : StorageService δ) (e : Event) : Prop :=
  ∀ stmt ctx, acceptedStatement w s e = some (stmt, ctx) → ctx.authenticated = true →
    ctx.userId ≠ [] ∧ ∀ innerSql, stmt = .submitQuery innerSql → Entitled w s.rbac ctx.userId innerSql

/-- Every task comes from a submission, and every submission was justified. -/
structure Accounted (s : StorageService δ) : Prop where
  origins : s.taskQueue.Every fun t => ∃ a, Origin s t a
  justified : ∀ a ∈ s.accepted, Justified w a

theorem accept_ok {session : Session} (h : accept w env session req s = (.ok stmt, ctx)) :
    Parser.parse w.runner.mktime req.sql = .ok stmt ∧ missing s.rbac ctx stmt.kind = none := by
  rw [accept] at h
  cases hauth : authenticate w env req
      (enter session req (s.sessionContexts session.clientId)) with
  | error e => simp [hauth] at h
  | ok ctx' =>
    cases hparse : Parser.parse w.runner.mktime req.sql with
    | error failure => simp [hauth, hparse] at h
    | ok stmt' =>
      cases hmissing : missing s.rbac ctx' stmt'.kind with
      | some perm => simp [hauth, hparse, hmissing] at h
      | none =>
        simp only [hauth, hparse, hmissing, Prod.mk.injEq, Except.ok.injEq] at h
        obtain ⟨rfl, rfl⟩ := h
        exact ⟨rfl, hmissing⟩

/-- The check of the request itself covers what is executed directly. -/
theorem authorised_request {remoteAddr : ByteString} (h : Checked w s (.request env remoteAddr req)) :
    Authorised w s (.request env remoteAddr req) := by
  simp only [Checked, acceptedStatement, Authorised, handleRequest] at h ⊢
  rcases haccept : accept w env (sessionOf remoteAddr req) req s with ⟨message | stmt, ctx⟩
  · intro sql hsql
    cases hsql
  · rw [haccept] at h
    obtain ⟨hparse, hmissing⟩ := accept_ok w haccept
    intro sql hsql hauth stmt' perm hparse' hrequired
    have hreq : sql = req.sql := by
      simp only [Option.ite_none_right_eq_some, Option.some.injEq] at hsql
      exact hsql.2.symm
    rw [hreq, hparse] at hparse'
    cases hparse'
    have hnonempty : ctx.userId.isEmpty = false := by simpa using (h stmt ctx rfl hauth).1
    simp [missing, hrequired, hnonempty] at hmissing
    exact hmissing hauth

theorem Accounted.authorised (h : Accounted w s) (he : Checked w s e) : Authorised w s e := by
  cases e with
  | request env remoteAddr req => exact authorised_request w he
  | pickUp env => trivial
  | runTask env iteration i =>
    intro task htask
    obtain ⟨a, ha⟩ := h.origins.executing task (List.mem_of_getElem? htask)
    exact ⟨a, ha, h.justified a ha.mem⟩

theorem Origin.sameQuery (t t' : TaskInfo) (h : TaskQueue.SameQuery t t') :
    (∃ a, Origin s t a) → ∃ a, Origin s t' a := by
  rintro ⟨a, ha⟩
  exact ⟨a, ha.mem, ha.taskId.trans h.requestId.symm, ha.sql.trans h.sql.symm,
    ha.database.trans h.database.symm, ha.userId.trans h.userId.symm⟩

theorem Accounted.submit (h : Accounted w s) (env : ServiceEnv) {innerSql : ByteString}
    (hentitled : ctx.authenticated = true → Entitled w s.rbac ctx.userId innerSql) :
    Accounted w { s with
      taskQueue := (submitQuery w env innerSql ctx s.taskQueue).2
      accepted := record w env innerSql ctx s } := by
  have hmem : s.accepted ⊆ record w env innerSql ctx s := by
    intro a ha
    rw [record]
    split_ifs
    · exact List.mem_append_left _ ha
    · exact ha
  constructor
  · apply TaskQueue.Every.submit
    · refine h.origins.mono ?_
      rintro t ⟨a, ha⟩
      exact ⟨a, hmem ha.mem, ha.taskId, ha.sql, ha.database, ha.userId⟩
    · intro hok
      refine ⟨{ taskId := env.taskId, sql := innerSql, context := ctx, rbac := s.rbac },
        ?_, rfl, rfl, rfl, rfl⟩
      have hsubmitted : (submitQuery w env innerSql ctx s.taskQueue).1.toBool = true := hok
      simp [record, hsubmitted]
  · intro a ha
    simp only [record] at ha
    split_ifs at ha
    · rcases List.mem_append.mp ha with ha | ha
      · exact h.justified a ha
      · rw [List.mem_singleton.mp ha]
        exact hentitled
    · exact h.justified a ha

theorem Accounted.congr {s' : StorageService δ} (h : Accounted w s)
    (hqueue : s'.taskQueue.Every fun t => ∃ a, Origin s t a) (haccepted : s'.accepted = s.accepted) :
    Accounted w s' := by
  refine ⟨hqueue.mono ?_, haccepted ▸ h.justified⟩
  rintro t ⟨a, ha⟩
  exact ⟨a, haccepted ▸ ha.mem, ha.taskId, ha.sql, ha.database, ha.userId⟩

theorem Accounted.dispatch (h : Accounted w s) (env : ServiceEnv) (req : Request)
    (hentitled : ctx.authenticated = true → ∀ innerSql, stmt = .submitQuery innerSql →
      Entitled w s.rbac ctx.userId innerSql) : Accounted w (dispatch w env req stmt ctx s).2.2 := by
  cases stmt with
  | submitQuery innerSql =>
    have hsubmit := h.submit w env fun hauth => hentitled hauth innerSql rfl
    have hqueue : (handleQueueStatement w env (.submitQuery innerSql) ctx s.taskQueue).2 =
        (submitQuery w env innerSql ctx s.taskQueue).2 := by
      rw [handleQueueStatement]
      rcases submitQuery w env innerSql ctx s.taskQueue with ⟨_ | _, q⟩ <;> rfl
    simpa only [StorageService.dispatch, hqueue] using hsubmit
  | getTask requestId =>
    refine h.congr w ?_ rfl
    have hqueue : (handleQueueStatement w env (.getTask requestId) ctx s.taskQueue).2 =
        s.taskQueue := by
      rw [handleQueueStatement, TaskQueue.getStatus,
        read_bind]
      cases s.taskQueue.taskMap.lookup requestId <;> rfl
    simpa only [StorageService.dispatch, hqueue] using h.origins
  | cancelTask requestId =>
    refine h.congr w ?_ rfl
    have hqueue : (handleQueueStatement w env (.cancelTask requestId) ctx s.taskQueue).2 =
        (TaskQueue.cancel w.queue env.walOpens requestId env.now s.taskQueue).2 := by
      rw [handleQueueStatement]
      rcases TaskQueue.cancel w.queue env.walOpens requestId env.now s.taskQueue with ⟨_ | _, q⟩ <;>
        rfl
    have hcancel := h.origins.cancel w.queue Origin.sameQuery env.walOpens requestId env.now
    simpa only [StorageService.dispatch, hqueue] using hcancel
  | _ => exact h.congr w h.origins rfl

theorem Accounted.step (h : Accounted w s) (he : Checked w s e) : Accounted w (step w s e).2 := by
  cases e with
  | request env remoteAddr req =>
    simp only [Checked, acceptedStatement, StorageService.step, handleRequest] at he ⊢
    rcases haccept : accept w env (sessionOf remoteAddr req) req s with ⟨message | stmt, ctx⟩
    · exact h.congr w h.origins rfl
    · rw [haccept] at he
      have hdispatch := h.dispatch w env req fun hauth => (he stmt ctx rfl hauth).2
      exact hdispatch.congr w hdispatch.origins rfl
  | pickUp env =>
    exact h.congr w (h.origins.pickUp w.queue Origin.sameQuery env.walOpens env.now) rfl
  | runTask env iteration i =>
    simp only [StorageService.step, runTask]
    split
    · exact h
    · exact h.congr w (h.origins.finish w.queue Origin.sameQuery _ _ _ _ _) rfl

/-- In a run in which every authenticated session names a user and submits only
queries that the user could run, every execution is authorised. -/
theorem storageService_authorised {s : StorageService δ} (hs : Accounted w s) (events : List Event)
    (hrun : Along (step w) (Checked w) s events) : Along (step w) (Authorised w) s events := by
  refine Along.imp (I := Accounted w) ?_ hs hrun
  intro t e ht he
  exact ⟨ht.authorised w he, ht.step w he⟩

/-- A service with running workers and one user, who may only read. -/
def servingService : StorageService Unit :=
  { readerService with taskQueue := { running := true, workers := 4 } }

theorem servingService_accounted : Accounted plainWorld servingService where
  origins := ⟨by simp [servingService], by simp [servingService], by simp [servingService]⟩
  justified := by simp [servingService, readerService]

def requestOfEve (sql : String) : Event :=
  .request { taskId := ascii "task" } [] { requestId := ascii "cli", sql := ascii sql,
                                           authToken := ascii "eve" }

def eveContext : SessionContext :=
  { clientId := ascii "cli", userId := ascii "eve", authenticated := true }

/-- A submission and its way through the queue. -/
def submissionOfEve (sql : String) : List Event :=
  [requestOfEve sql, .pickUp {}, .runTask {} (Iteration.inOrder _) 0]

theorem selectOfEve_accepted :
    acceptedStatement plainWorld servingService (requestOfEve "SUBMIT QUERY 'SELECT * FROM t'") =
      some (.submitQuery (ascii "SELECT * FROM t"), eveContext) := by
  decide +kernel

theorem selection_parses : Parser.parse plainWorld.runner.mktime (ascii "SELECT * FROM t") =
    .ok (.select [] (ascii "t") true [] none) := by
  decide +kernel

/-- A user who may read submits a selection, which a worker carries out. -/
theorem storageService_authorised_select :
    Accounted plainWorld servingService ∧
      Along (step plainWorld) (Checked plainWorld) servingService
        (submissionOfEve "SUBMIT QUERY 'SELECT * FROM t'") ∧
      ((finalState (step plainWorld) servingService ((submissionOfEve
        "SUBMIT QUERY 'SELECT * FROM t'").take 2)).taskQueue.executing[0]?).isSome = true ∧
      Along (step plainWorld) (Authorised plainWorld) servingService
        (submissionOfEve "SUBMIT QUERY 'SELECT * FROM t'") := by
  have hrun : Along (step plainWorld) (Checked plainWorld) servingService
      (submissionOfEve "SUBMIT QUERY 'SELECT * FROM t'") := by
    refine ⟨?_, ?_, ?_, trivial⟩
    · intro stmt ctx haccepted _
      rw [selectOfEve_accepted] at haccepted
      cases haccepted
      refine ⟨by decide, ?_⟩
      rintro _ ⟨⟩ stmt perm hparse hperm
      rw [selection_parses] at hparse
      cases hparse
      cases hperm
      decide +kernel
    · rintro _ _ ⟨⟩
    · rintro _ _ ⟨⟩
  exact ⟨servingService_accounted, hrun, by decide +kernel,
    storageService_authorised plainWorld servingService_accounted _ hrun⟩

def deletionOfEve : List Event := submissionOfEve "SUBMIT QUERY 'DELETE FROM t WHERE a = 1'"

def deletingService : StorageService Unit :=
  finalState (step plainWorld) servingService (deletionOfEve.take 2)

theorem deletion_parses : Parser.parse plainWorld.runner.mktime
    (ascii "DELETE FROM t WHERE a = 1") = .ok (.delete [] (ascii "t")
      (.binary .kEq (.columnRef (ascii "a")) (.literal (.int 1)))) := by
  decide +kernel

theorem deletingService_accepted :
    (deletingService.accepted.map fun a =>
      (a.sql, a.context, a.rbac.hasPermission (ascii "eve") .kWrite)) =
      [(ascii "DELETE FROM t WHERE a = 1", eveContext, false)] := by
  decide +kernel

theorem deletingService_executing :
    (deletingService.taskQueue.executing[0]?).isSome = true := by
  decide +kernel

/-- A user who may only read submits a deletion, and a worker carries it out. -/
theorem storageService_runs_unchecked :
    Accounted plainWorld servingService ∧
      ¬ Along (step plainWorld) (Authorised plainWorld) servingService deletionOfEve := by
  refine ⟨servingService_accounted, ?_⟩
  rintro ⟨-, -, hauthorised, -⟩
  obtain ⟨task, htask⟩ := Option.isSome_iff_exists.mp deletingService_executing
  obtain ⟨a, horigin, hjustified⟩ := hauthorised task htask
  have ha := List.mem_map_of_mem (f := fun a : Acceptance =>
    (a.sql, a.context, a.rbac.hasPermission (ascii "eve") .kWrite)) horigin.mem
  have hmap : (a.sql, a.context, a.rbac.hasPermission (ascii "eve") .kWrite) =
      (ascii "DELETE FROM t WHERE a = 1", eveContext, false) :=
    List.mem_singleton.mp (deletingService_accepted ▸ ha)
  simp only [Prod.mk.injEq] at hmap
  obtain ⟨hsql, hcontext, hdenied⟩ := hmap
  rw [Justified, hsql, hcontext] at hjustified
  have hheld := hjustified rfl _ .kWrite deletion_parses rfl
  rw [show eveContext.userId = ascii "eve" from rfl, hdenied] at hheld
  cases hheld

end StorageService

end CourseDb

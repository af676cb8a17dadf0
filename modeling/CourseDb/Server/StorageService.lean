import CourseDb.Auth.Rbac
import CourseDb.Network.Framing
import CourseDb.Queue.TaskQueue
import CourseDb.Server.QueryProcessor

/-! # The storage service

A request is handled in the session context stored under its client id: the
token is checked, the text is parsed, the permission that the kind of statement
requires is looked up, and the statement is dispatched. Submitted queries wait in
the task queue, from where a worker runs them without a further check.
-/

namespace CourseDb

/-- The third-party tokens with the configured secret and life time. -/
structure Jwt where
  issueToken : (userId : ByteString) → (now : ℤ) → Except Status ByteString
  validateToken : (token : ByteString) → (now : ℤ) → Except Status ByteString

/-- What a service is connected to. `dump` is the JSON text of a result. -/
structure ServiceWorld (δ : Type) where
  crypto : Crypto
  jwt : Jwt
  queue : TaskQueue.Config
  runner : StatementRunner δ
  dump : QueryResult → ByteString

/-- What the environment contributes to one step. -/
structure ServiceEnv where
  now : ℤ := 0
  salt : ByteString := []
  saving : RbacStore.Saving := .written
  walOpens : Bool := true
  taskId : ByteString := []
  metrics : ByteString := []

/-- A query that was accepted for the task queue, with the session and the
permissions of that moment. -/
structure Acceptance where
  taskId : ByteString
  sql : ByteString
  context : SessionContext
  rbac : RbacStore

structure StorageService (δ : Type) where
  rbac : RbacStore
  taskQueue : TaskQueue
  sessionContexts : ByteString → Option SessionContext
  engine : δ
  /-- The submitted queries that were accepted, in order. -/
  accepted : List Acceptance := []

namespace StorageService

open Framing (Session)

variable {δ : Type} (w : ServiceWorld δ) (env : ServiceEnv)

def okResult (message : ByteString) : QueryResult :=
  if message.isEmpty then {}
  else { columns := [ascii "message"], rows := [[.string message]] }

def errResult (message : ByteString) : QueryResult := { ok := false, error := message }

def requiredPermission : StatementKind → Option Permission
  | .kSelect => some .kRead
  | .kInsert => some .kWrite
  | .kUpdate => some .kWrite
  | .kDelete => some .kWrite
  | .kCreateTable => some .kCreateTable
  | .kDropTable => some .kDropTable
  | .kDropDatabase => some .kDropDatabase
  | .kRevert => some .kWrite
  | .kSubmitQuery => some .kRead
  | _ => none

def startsWithLogin (sql : ByteString) : Bool :=
  5 ≤ sql.length && Parser.upper (sql.take 5) = ascii "LOGIN"

/-- The context of a client at the beginning of a request. -/
def enter (session : Session) (req : Request) (known : Option SessionContext) : SessionContext :=
  let ctx := known.getD {}
  let ctx := if ctx.clientId.isEmpty then { ctx with clientId := session.clientId } else ctx
  if req.database.isEmpty then ctx else { ctx with currentDb := req.database }

def authenticate (req : Request) (ctx : SessionContext) : Except Status SessionContext :=
  if startsWithLogin req.sql || req.authToken.isEmpty then .ok ctx
  else
    match w.jwt.validateToken req.authToken env.now with
    | .ok userId => .ok { ctx with authenticated := true, userId }
    | .error e => .error e

/-- The permission that is required and not held. -/
def missing (rbac : RbacStore) (ctx : SessionContext) (kind : StatementKind) : Option Permission :=
  match requiredPermission kind with
  | none => none
  | some perm =>
    if ctx.authenticated && !ctx.userId.isEmpty && !rbac.hasPermission ctx.userId perm then
      some perm
    else none

/-- The first part of `HandleRequest`: the statement to carry out or the error,
and the context that the client has from here on. -/
def accept (session : Session) (req : Request) (s : StorageService δ) :
    Except ByteString SqlStatement × SessionContext :=
  let ctx := enter session req (s.sessionContexts session.clientId)
  match authenticate w env req ctx with
  | .error e => (.error (ascii "authentication failed: " ++ ascii e.message), ctx)
  | .ok ctx =>
    match Parser.parse w.runner.mktime req.sql with
    | .error failure => (.error (ascii "[parse] " ++ QueryProcessor.what failure), ctx)
    | .ok stmt =>
      match missing s.rbac ctx stmt.kind with
      | some perm => (.error (ascii "permission denied: " ++ ascii perm.name ++
          ascii " required"), ctx)
      | none => (.ok stmt, ctx)

/-- The answer to a change of the users and groups. -/
def report (message : ByteString) (outcome : Except Status Unit × RbacStore) :
    QueryResult × RbacStore :=
  match outcome with
  | (.ok _, rbac) => (okResult message, rbac)
  | (.error e, rbac) => (errResult (ascii e.message), rbac)

@[simp] theorem report_rbac (message : ByteString) (outcome : Except Status Unit × RbacStore) :
    (report message outcome).2 = outcome.2 := by
  obtain ⟨_ | _, rbac⟩ := outcome <;> rfl

def targetName : TargetType → ByteString
  | .user => ascii "USER"
  | .group => ascii "GROUP"

def login (userId password : ByteString) (ctx : SessionContext) (rbac : RbacStore) :
    QueryResult × SessionContext :=
  if !rbac.checkPassword w.crypto userId password then (errResult (ascii "invalid credentials"), ctx)
  else
    match w.jwt.issueToken userId env.now with
    | .error e => (errResult (ascii e.message), ctx)
    | .ok token =>
      ({ columns := [ascii "token"], rows := [[.string token]] },
        { ctx with authenticated := true, userId })

def grant (permission : ByteString) (target : TargetType) (name : ByteString) (rbac : RbacStore) :
    QueryResult × RbacStore :=
  match Permission.parse permission with
  | .error e => (errResult (ascii e.message), rbac)
  | .ok perm =>
    report (ascii "granted " ++ permission ++ ascii " to " ++ targetName target ++ ascii " " ++ name)
      (match target with
        | .user => RbacStore.grantToUser env.saving name perm rbac
        | .group => RbacStore.grantToGroup env.saving name perm rbac)

def revoke (permission : ByteString) (target : TargetType) (name : ByteString) (rbac : RbacStore) :
    QueryResult × RbacStore :=
  match Permission.parse permission with
  | .error e => (errResult (ascii e.message), rbac)
  | .ok perm =>
    report (ascii "revoked " ++ permission ++ ascii " from " ++ targetName target ++ ascii " " ++ name)
      (match target with
        | .user => RbacStore.revokeFromUser env.saving name perm rbac
        | .group => RbacStore.revokeFromGroup env.saving name perm rbac)

/-- The statements of `HandleAuthStatement` other than LOGIN. -/
def changeRights (stmt : SqlStatement) (rbac : RbacStore) : QueryResult × RbacStore :=
  match stmt with
  | .createUser userId password =>
    report (ascii "user created: " ++ userId)
      (RbacStore.createUser w.crypto env.saving env.salt userId password rbac)
  | .dropUser userId =>
    report (ascii "user dropped: " ++ userId) (RbacStore.dropUser env.saving userId rbac)
  | .createGroup groupName =>
    report (ascii "group created: " ++ groupName) (RbacStore.createGroup env.saving groupName rbac)
  | .dropGroup groupName =>
    report (ascii "group dropped: " ++ groupName) (RbacStore.dropGroup env.saving groupName rbac)
  | .addUserToGroup userId groupName =>
    report (ascii "user " ++ userId ++ ascii " added to group " ++ groupName)
      (RbacStore.addUserToGroup env.saving userId groupName rbac)
  | .grant permission target name => grant env permission target name rbac
  | .revoke permission target name => revoke env permission target name rbac
  | _ => (errResult (ascii "unexpected auth statement kind"), rbac)

def statusName : TaskStatus → ByteString
  | .kQueued => ascii "queued"
  | .kRunning => ascii "running"
  | .kCompleted => ascii "completed"
  | .kFailed => ascii "failed"
  | .kCancelled => ascii "cancelled"

def taskRow (info : TaskInfo) : Tuple :=
  [.string (statusName info.status), .int (Int64.ofInt info.progress), .string info.result,
    .string info.error]

def submitQuery (innerSql : ByteString) (ctx : SessionContext) (q : TaskQueue) :
    Except Status ByteString × TaskQueue :=
  TaskQueue.submit w.queue env.walOpens env.taskId innerSql ctx.currentDb ctx.userId env.now q

def handleQueueStatement (stmt : SqlStatement) (ctx : SessionContext) (q : TaskQueue) :
    QueryResult × TaskQueue :=
  match stmt with
  | .submitQuery innerSql =>
    match submitQuery w env innerSql ctx q with
    | (.error e, q) => (errResult (ascii e.message), q)
    | (.ok requestId, q) =>
      ({ columns := [ascii "request_id"], rows := [[.string requestId]] }, q)
  | .getTask requestId =>
    match TaskQueue.getStatus requestId q with
    | (.error e, q) => (errResult (ascii e.message), q)
    | (.ok info, q) =>
      ({ columns := [ascii "status", ascii "progress", ascii "result", ascii "error"]
         rows := [taskRow info] }, q)
  | .cancelTask requestId =>
    match TaskQueue.cancel w.queue env.walOpens requestId env.now q with
    | (.error e, q) => (errResult (ascii e.message), q)
    | (.ok _, q) => (okResult (ascii "task cancelled: " ++ requestId), q)
  | _ => (errResult (ascii "unexpected queue statement kind"), q)

/-- What a step shows: the answer to a request, the context it was handled in,
and the text that the query processor was called with, if it was. -/
structure Reply where
  response : Response := {}
  context : SessionContext := {}
  executed : Option ByteString := none

def respond (result : QueryResult) : Response :=
  { ok := result.ok, error := result.error, result }

def setContext (clientId : ByteString) (ctx : SessionContext) (s : StorageService δ) :
    StorageService δ :=
  { s with sessionContexts := Function.update s.sessionContexts clientId (some ctx) }

def record (innerSql : ByteString) (ctx : SessionContext) (s : StorageService δ) :
    List Acceptance :=
  if ((submitQuery w env innerSql ctx s.taskQueue).1).toBool then
    s.accepted ++ [{ taskId := env.taskId, sql := innerSql, context := ctx, rbac := s.rbac }]
  else s.accepted

/-- The `switch` of `HandleRequest`: the result, the context and the state afterwards. -/
def dispatch (req : Request) (stmt : SqlStatement) (ctx : SessionContext) (s : StorageService δ) :
    QueryResult × SessionContext × StorageService δ :=
  match stmt with
  | .login userId password =>
    ((login w env userId password ctx s.rbac).1, (login w env userId password ctx s.rbac).2, s)
  | .createUser _ _ | .dropUser _ | .createGroup _ | .dropGroup _ | .addUserToGroup _ _
  | .grant _ _ _ | .revoke _ _ _ =>
    ((changeRights w env stmt s.rbac).1, ctx, { s with rbac := (changeRights w env stmt s.rbac).2 })
  | .submitQuery innerSql =>
    ((handleQueueStatement w env stmt ctx s.taskQueue).1, ctx,
      { s with taskQueue := (handleQueueStatement w env stmt ctx s.taskQueue).2
               accepted := record w env innerSql ctx s })
  | .getTask _ | .cancelTask _ =>
    ((handleQueueStatement w env stmt ctx s.taskQueue).1, ctx,
      { s with taskQueue := (handleQueueStatement w env stmt ctx s.taskQueue).2 })
  | .showMetrics =>
    ({ columns := [ascii "metrics"], rows := [[.string env.metrics]] }, ctx, s)
  | _ =>
    let (result, currentDb, engine) := QueryProcessor.execute w.runner req.sql ctx.currentDb s.engine
    (result, { ctx with currentDb }, { s with engine })

/-- The statements that `HandleRequest` hands to the query processor. -/
def isExecuted : SqlStatement → Bool
  | .login _ _ | .createUser _ _ | .dropUser _ | .createGroup _ | .dropGroup _
  | .addUserToGroup _ _ | .grant _ _ _ | .revoke _ _ _ | .submitQuery _ | .getTask _
  | .cancelTask _ | .showMetrics => false
  | _ => true

def handleRequest (session : Session) (req : Request) (s : StorageService δ) :
    Reply × StorageService δ :=
  match accept w env session req s with
  | (.error message, context) =>
    ({ response := respond (errResult message), context }, setContext session.clientId context s)
  | (.ok stmt, context) =>
    let (result, ctx, s) := dispatch w env req stmt context s
    ({ response := respond result, context
       executed := if isExecuted stmt then some req.sql else none },
      setContext session.clientId ctx s)

/-- The session that the executor of the task queue makes for a task. -/
def taskContext (task : TaskInfo) : SessionContext :=
  { currentDb := task.database, userId := task.userId, authenticated := true }

/-- The executor runs the `i`-th task that was picked up, and the worker files its
outcome. -/
def runTask (iteration : TaskIteration) (i : ℕ) (s : StorageService δ) :
    Reply × StorageService δ :=
  match s.taskQueue.executing[i]? with
  | none => ({}, s)
  | some task =>
    let (result, _, engine) := QueryProcessor.execute w.runner task.sql task.database s.engine
    let outcome := if result.ok then .ok (w.dump result)
      else .error ⟨.kExecutionError, quoted result.error⟩
    ({ context := taskContext task, executed := some task.sql },
      { s with engine
               taskQueue :=
                 TaskQueue.finish w.queue env.walOpens iteration i outcome env.now s.taskQueue })

inductive Event where
  | request (env : ServiceEnv) (remoteAddr : ByteString) (req : Request)
  | pickUp (env : ServiceEnv)
  | runTask (env : ServiceEnv) (iteration : TaskIteration) (i : ℕ)

/-- The server takes the client id of a session from the request. -/
def sessionOf (remoteAddr : ByteString) (req : Request) : Session :=
  { clientId := req.requestId, remoteAddr }

def step (s : StorageService δ) : Event → Reply × StorageService δ
  | .request env remoteAddr req => handleRequest w env (sessionOf remoteAddr req) req s
  | .pickUp env => ({}, { s with taskQueue := TaskQueue.pickUp w.queue env.walOpens env.now s.taskQueue })
  | .runTask env iteration i => runTask w env iteration i s

theorem zeroDigest_length (_ _ : ByteString) (_ : ℕ) : (List.replicate 32 (0 : Byte)).length = 32 :=
  List.length_replicate ..

/-- A world in which every password has the same digest and tokens are user names. -/
def plainWorld : ServiceWorld Unit where
  crypto := ⟨fun _ _ _ => List.replicate 32 0, zeroDigest_length⟩
  jwt := ⟨fun userId _ => .ok userId, fun token _ => .ok token⟩
  queue := ⟨10000, 4, "task_queue.wal"⟩
  runner := ⟨fun _ => none, fun _ _ d => ({}, d)⟩
  dump _ := []

end StorageService

end CourseDb

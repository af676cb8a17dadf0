import CourseDb.Lib.Noninterference
import CourseDb.Server.StorageService

/-! # Isolation of sessions

The contexts of the clients are kept under the request id that a client sends, so
two clients that send the same id share a context. Two clients are isolated as
long as they use different ids and one does not create or drop users that the
other logs in as.
-/

namespace CourseDb

namespace StorageService

open Framing (Session)

variable {δ : Type} (w : ServiceWorld δ) (env : ServiceEnv) {stmt : SqlStatement} {req : Request}
  {v : ByteString} {requests : List Request}

/-! ## What a request does to the contexts and the password hashes -/

/-- The context of a request and its statement, before the permission is checked. -/
def hear (session : Session) (req : Request) (known : Option SessionContext) :
    SessionContext × Option SqlStatement :=
  match authenticate w env req (enter session req known) with
  | .error _ => (enter session req known, none)
  | .ok ctx => (ctx, (Parser.parse w.runner.mktime req.sql).toOption)

def contextAfter (stmt : SqlStatement) (ctx : SessionContext) (rbac : RbacStore) : SessionContext :=
  match stmt with
  | .login userId password => (login w env userId password ctx rbac).2
  | .useDatabase name => { ctx with currentDb := name }
  | _ => ctx

/-- A statement that can be refused leaves the context and the rights alone. -/
theorem effect_of_missing {rbac : RbacStore} {ctx : SessionContext} {perm : Permission}
    (h : missing rbac ctx stmt.kind = some perm) :
    contextAfter w env stmt ctx rbac = ctx ∧ (changeRights w env stmt rbac).2 = rbac := by
  cases stmt <;> first | exact ⟨rfl, rfl⟩ | cases h

theorem dispatch_effect (hparse : Parser.parse w.runner.mktime req.sql = .ok stmt)
    (ctx : SessionContext) (s : StorageService δ) :
    (dispatch w env req stmt ctx s).2.1 = contextAfter w env stmt ctx s.rbac ∧
      (dispatch w env req stmt ctx s).2.2.sessionContexts = s.sessionContexts ∧
      (dispatch w env req stmt ctx s).2.2.rbac = (changeRights w env stmt s.rbac).2 := by
  have hdb := QueryProcessor.execute_currentDb w.runner hparse ctx.currentDb s.engine
  cases stmt <;> simp [dispatch, contextAfter, changeRights, hdb, QueryProcessor.databaseAfter]

/-- A request is handled in the context it was heard in, which is stored with the
changes of its statement; the rights change as the statement says. -/
theorem handleRequest_effect (session : Session) (req : Request) (s : StorageService δ) :
    let heard := hear w env session req (s.sessionContexts session.clientId)
    (handleRequest w env session req s).1.context = heard.1 ∧
      (handleRequest w env session req s).2.sessionContexts =
        Function.update s.sessionContexts session.clientId (some (match heard.2 with
          | none => heard.1
          | some stmt => contextAfter w env stmt heard.1 s.rbac)) ∧
      (handleRequest w env session req s).2.rbac = (match heard.2 with
        | none => s.rbac
        | some stmt => (changeRights w env stmt s.rbac).2) := by
  simp only [hear, handleRequest, accept]
  cases authenticate w env req (enter session req (s.sessionContexts session.clientId)) with
  | error e => exact ⟨rfl, rfl, rfl⟩
  | ok ctx =>
    cases hparse : Parser.parse w.runner.mktime req.sql with
    | error failure => exact ⟨rfl, rfl, rfl⟩
    | ok stmt =>
      simp only [Except.toOption]
      cases hmissing : missing s.rbac ctx stmt.kind with
      | some perm =>
        obtain ⟨hctx, hrbac⟩ := effect_of_missing w env hmissing
        refine ⟨rfl, ?_, hrbac.symm⟩
        rw [hctx]
        rfl
      | none =>
        obtain ⟨hctx, hcontexts, hrbac⟩ := dispatch_effect w env hparse ctx s
        refine ⟨rfl, ?_, hrbac⟩
        simp only [setContext, hctx, hcontexts]

def changedUser : SqlStatement → Option ByteString
  | .createUser userId _ | .dropUser userId => some userId
  | _ => none

/-- The user whose password a statement reads or changes. -/
def credentialsUser : SqlStatement → Option ByteString
  | .login userId _ => some userId
  | stmt => changedUser stmt

theorem hashOf_changeRights_of_ne (h : changedUser stmt ≠ some v) (rbac : RbacStore) :
    (changeRights w env stmt rbac).2.hashOf v = rbac.hashOf v := by
  cases stmt with
  | createUser userId password =>
    have hv : v ≠ userId := by rintro rfl; exact h rfl
    simp only [changeRights, report_rbac, RbacStore.hashOf_createUser, if_neg hv]
  | dropUser userId =>
    have hv : v ≠ userId := by rintro rfl; exact h rfl
    simp only [changeRights, report_rbac, RbacStore.hashOf_dropUser, if_neg hv]
  | createGroup groupName =>
    simp only [changeRights, report_rbac, RbacStore.hashOf_createGroup]
  | dropGroup groupName =>
    simp only [changeRights, report_rbac, RbacStore.hashOf_dropGroup]
  | addUserToGroup userId groupName =>
    simp only [changeRights, report_rbac, RbacStore.hashOf_addUserToGroup]
  | grant permission target name =>
    simp only [changeRights, grant]
    cases Permission.parse permission with
    | error e => rfl
    | ok perm =>
      cases target with
      | user => simp only [report_rbac, RbacStore.hashOf_grantToUser]
      | group => simp only [report_rbac, RbacStore.grantToGroup, RbacStore.hashOf_updateGroup]
  | revoke permission target name =>
    simp only [changeRights, revoke]
    cases Permission.parse permission with
    | error e => rfl
    | ok perm =>
      cases target with
      | user => simp only [report_rbac, RbacStore.hashOf_revokeFromUser]
      | group => simp only [report_rbac, RbacStore.revokeFromGroup, RbacStore.hashOf_updateGroup]
  | _ => rfl

theorem hashOf_changeRights_congr (stmt : SqlStatement) {rbac rbac' : RbacStore}
    (h : rbac.hashOf v = rbac'.hashOf v) :
    (changeRights w env stmt rbac).2.hashOf v = (changeRights w env stmt rbac').2.hashOf v := by
  by_cases hchanged : changedUser stmt = some v
  · cases stmt with
    | createUser userId password =>
      cases hchanged
      simp only [changeRights, report_rbac, RbacStore.hashOf_createUser, if_true, h]
    | dropUser userId =>
      cases hchanged
      simp only [changeRights, report_rbac, RbacStore.hashOf_dropUser, if_true]
    | _ => cases hchanged
  · rw [hashOf_changeRights_of_ne w env hchanged, hashOf_changeRights_of_ne w env hchanged, h]

theorem contextAfter_congr {rbac rbac' : RbacStore}
    (h : ∀ v, credentialsUser stmt = some v → rbac.hashOf v = rbac'.hashOf v) (ctx : SessionContext) :
    contextAfter w env stmt ctx rbac = contextAfter w env stmt ctx rbac' := by
  cases stmt with
  | login userId password =>
    simp only [contextAfter, login, RbacStore.checkPassword_eq, h userId rfl]
  | _ => rfl

/-! ## Two clients -/

/-- What happens to a service with two clients: requests of either, and the work of
the task queue. -/
inductive Input where
  | fromA (env : ServiceEnv) (remoteAddr : ByteString) (req : Request)
  | fromB (env : ServiceEnv) (remoteAddr : ByteString) (req : Request)
  | pickUp (env : ServiceEnv)
  | runTask (env : ServiceEnv) (iteration : TaskIteration) (i : ℕ)

namespace Input

def event : Input → Event
  | fromA env remoteAddr req | fromB env remoteAddr req => .request env remoteAddr req
  | pickUp env => .pickUp env
  | runTask env iteration i => .runTask env iteration i

def isFromA : Input → Bool
  | fromA _ _ _ => true
  | _ => false

end Input

/-- A step, showing only the context in which a request is handled. -/
def contextStep (s : StorageService δ) (i : Input) : SessionContext × StorageService δ :=
  ((step w s i.event).1.context, (step w s i.event).2)

/-- The contexts in which the requests of the first client are handled. -/
def contextsOfA (s : StorageService δ) (inputs : List Input) : List SessionContext :=
  Noninterference.observe (contextStep w) Input.isFromA s inputs

/-- The second request uses another request id than the first, and it does not create
or drop the user that the first logs in, creates or drops. -/
def Apart (mktime : Parser.Mktime) (a b : Request) : Prop :=
  a.requestId ≠ b.requestId ∧
    ∀ stmtA stmtB v, Parser.parse mktime a.sql = .ok stmtA → Parser.parse mktime b.sql = .ok stmtB →
      credentialsUser stmtA = some v → changedUser stmtB ≠ some v

/-- Every request of the second client is apart from the given ones, and every
request of the first is one of them. -/
def Admissible (mktime : Parser.Mktime) (requests : List Request) : Input → Prop
  | .fromA _ _ req => req ∈ requests
  | .fromB _ _ req => ∀ a ∈ requests, Apart mktime a req
  | _ => True

/-- The states agree on everything that the contexts of the given requests depend on. -/
structure Agree (requests : List Request) (s t : StorageService δ) : Prop where
  contexts : ∀ req ∈ requests, s.sessionContexts req.requestId = t.sessionContexts req.requestId
  hashes : ∀ req ∈ requests, ∀ stmt v, Parser.parse w.runner.mktime req.sql = .ok stmt →
    credentialsUser stmt = some v → s.rbac.hashOf v = t.rbac.hashOf v

theorem hear_statement {session : Session} {known : Option SessionContext}
    (h : (hear w env session req known).2 = some stmt) :
    Parser.parse w.runner.mktime req.sql = .ok stmt := by
  rw [hear] at h
  cases hauth : authenticate w env req (enter session req known) with
  | error e => simp [hauth] at h
  | ok ctx =>
    cases hparse : Parser.parse w.runner.mktime req.sql with
    | error failure => simp [hauth, hparse, Except.toOption] at h
    | ok stmt' => simpa [hauth, hparse, Except.toOption] using h

/-- A request of the first client is handled alike in states that agree, and leaves
states that agree. -/
theorem Agree.handleRequest {s t : StorageService δ} (h : Agree w requests s t)
    (hreq : req ∈ requests) (remoteAddr : ByteString) :
    (handleRequest w env (sessionOf remoteAddr req) req s).1.context =
        (handleRequest w env (sessionOf remoteAddr req) req t).1.context ∧
      Agree w requests (handleRequest w env (sessionOf remoteAddr req) req s).2
        (handleRequest w env (sessionOf remoteAddr req) req t).2 := by
  obtain ⟨hctx, hcontexts, hrbac⟩ := handleRequest_effect w env (sessionOf remoteAddr req) req s
  obtain ⟨hctx', hcontexts', hrbac'⟩ := handleRequest_effect w env (sessionOf remoteAddr req) req t
  have hknown : t.sessionContexts (sessionOf remoteAddr req).clientId =
      s.sessionContexts (sessionOf remoteAddr req).clientId := (h.contexts req hreq).symm
  rw [hknown] at hctx' hcontexts' hrbac'
  refine ⟨hctx.trans hctx'.symm, ?_, ?_⟩
  · intro a ha
    rw [hcontexts, hcontexts']
    by_cases hid : a.requestId = (sessionOf remoteAddr req).clientId
    · rw [hid, Function.update_self, Function.update_self]
      cases hstmt : (hear w env (sessionOf remoteAddr req) req
          (s.sessionContexts (sessionOf remoteAddr req).clientId)).2 with
      | none => rfl
      | some stmt =>
        have hparse := hear_statement w env hstmt
        simp only [contextAfter_congr w env fun v => h.hashes req hreq stmt v hparse]
    · rw [Function.update_of_ne hid, Function.update_of_ne hid]
      exact h.contexts a ha
  · intro a ha stmtA v hparseA hv
    rw [hrbac, hrbac']
    have hhash := h.hashes a ha stmtA v hparseA hv
    cases (hear w env (sessionOf remoteAddr req) req
        (s.sessionContexts (sessionOf remoteAddr req).clientId)).2 with
    | none => exact hhash
    | some stmt => exact hashOf_changeRights_congr w env stmt hhash

theorem Agree.handleRequest_apart {s t : StorageService δ} (h : Agree w requests s t)
    (hreq : ∀ a ∈ requests, Apart w.runner.mktime a req) (remoteAddr : ByteString) :
    Agree w requests (StorageService.handleRequest w env (sessionOf remoteAddr req) req s).2 t := by
  obtain ⟨-, hcontexts, hrbac⟩ := handleRequest_effect w env (sessionOf remoteAddr req) req s
  refine ⟨?_, ?_⟩
  · intro a ha
    have hid : a.requestId ≠ (sessionOf remoteAddr req).clientId := (hreq a ha).1
    rw [hcontexts, Function.update_of_ne hid]
    exact h.contexts a ha
  · intro a ha stmtA v hparseA hv
    rw [hrbac, ← h.hashes a ha stmtA v hparseA hv]
    cases hstmt : (hear w env (sessionOf remoteAddr req) req
        (s.sessionContexts (sessionOf remoteAddr req).clientId)).2 with
    | none => rfl
    | some stmt =>
      have hparse := hear_statement w env hstmt
      exact hashOf_changeRights_of_ne w env ((hreq a ha).2 stmtA stmt v hparseA hparse hv) s.rbac

theorem runTask_effect (iteration : TaskIteration) (i : ℕ)
    (s : StorageService δ) :
    (runTask w env iteration i s).2.sessionContexts = s.sessionContexts ∧
      (runTask w env iteration i s).2.rbac = s.rbac := by
  rw [runTask]
  split <;> exact ⟨rfl, rfl⟩

theorem agree_unwinds (requests : List Request) :
    Noninterference.Unwinds (contextStep w) Input.isFromA
      (Admissible w.runner.mktime requests) (Agree w requests) where
  answers := by
    rintro s t (⟨env, remoteAddr, req⟩ | _ | _ | _) hagree hadmissible hvisible
    · exact (hagree.handleRequest w env hadmissible remoteAddr).1
    all_goals cases hvisible
  advances := by
    rintro s t (⟨env, remoteAddr, req⟩ | _ | _ | _) hagree hadmissible hvisible
    · exact (hagree.handleRequest w env hadmissible remoteAddr).2
    all_goals cases hvisible
  hides := by
    rintro s t (_ | ⟨env, remoteAddr, req⟩ | env | ⟨env, iteration, i⟩) hagree hadmissible hvisible
    · cases hvisible
    · exact hagree.handleRequest_apart w env hadmissible remoteAddr
    · exact ⟨hagree.contexts, hagree.hashes⟩
    · obtain ⟨hcontexts, hrbac⟩ := runTask_effect w env iteration i s
      refine ⟨?_, ?_⟩
      · intro req hreq
        exact (congrFun hcontexts _).trans (hagree.contexts req hreq)
      · intro req hreq stmt v hparse hv
        exact (congrArg (RbacStore.hashOf · v) hrbac).trans (hagree.hashes req hreq stmt v hparse hv)

def requestsOfA (inputs : List Input) : List Request :=
  inputs.filterMap fun
    | .fromA _ _ req => some req
    | _ => none

def requestsOfB (inputs : List Input) : List Request :=
  inputs.filterMap fun
    | .fromB _ _ req => some req
    | _ => none

theorem requestsOfA_filter (inputs : List Input) :
    requestsOfA (inputs.filter Input.isFromA) = requestsOfA inputs := by
  rw [requestsOfA, requestsOfA, List.filterMap_filter]
  congr
  funext i
  cases i <;> rfl

theorem admissible_of_apart {mktime : Parser.Mktime} {inputs : List Input}
    (hA : requestsOfA inputs = requests)
    (hB : ∀ a ∈ requests, ∀ b ∈ requestsOfB inputs, Apart mktime a b) :
    ∀ i ∈ inputs, Admissible mktime requests i := by
  rintro (⟨env, remoteAddr, req⟩ | ⟨env, remoteAddr, req⟩ | _ | _) hi
  · rw [← hA]
    exact List.mem_filterMap.mpr ⟨_, hi, rfl⟩
  · intro a ha
    exact hB a ha req (List.mem_filterMap.mpr ⟨_, hi, rfl⟩)
  · trivial
  · trivial

/-- In two runs with the same requests of the first client these are handled in the
same contexts, if every request of the second client is apart from them. -/
theorem storageService_sessions_isolated (s : StorageService δ) (is js : List Input)
    (hsame : is.filter Input.isFromA = js.filter Input.isFromA)
    (hapart : ∀ a ∈ requestsOfA is, ∀ b ∈ requestsOfB is ++ requestsOfB js,
      Apart w.runner.mktime a b) :
    contextsOfA w s is = contextsOfA w s js := by
  have hrequests : requestsOfA js = requestsOfA is := by
    rw [← requestsOfA_filter, ← hsame, requestsOfA_filter]
  have his : ∀ i ∈ is, Admissible w.runner.mktime (requestsOfA is) i :=
    admissible_of_apart rfl fun a ha b hb => hapart a ha b (List.mem_append_left _ hb)
  have hjs : ∀ j ∈ js, Admissible w.runner.mktime (requestsOfA is) j :=
    admissible_of_apart hrequests fun a ha b hb => hapart a ha b (List.mem_append_right _ hb)
  exact (agree_unwinds w (requestsOfA is)).observe_eq his hjs hsame
    ⟨fun _ _ => rfl, fun _ _ _ _ _ _ => rfl⟩

/-- A service that was just started without any files. -/
def startedService : StorageService Unit where
  rbac := RbacStore.fresh plainWorld.crypto "rbac.json" (List.replicate 16 0)
  taskQueue := {}
  sessionContexts _ := none
  engine := ()

def loginAdmin (requestId : String) : Request :=
  { requestId := ascii requestId, sql := ascii "LOGIN admin PASSWORD 'admin'" }

def useShop : Request := { requestId := ascii "a", sql := ascii "USE shop" }

theorem useShop_parses : Parser.parse plainWorld.runner.mktime useShop.sql =
    .ok (.useDatabase (ascii "shop")) := by
  decide +kernel

theorem useShop_apart_login : Apart plainWorld.runner.mktime useShop (loginAdmin "b") := by
  refine ⟨by decide, ?_⟩
  intro stmtA stmtB v hparse _ hv
  rw [useShop_parses] at hparse
  cases hparse
  cases hv

theorem storageService_sessions_isolated_login :
    contextsOfA plainWorld startedService [.fromB {} [] (loginAdmin "b"), .fromA {} [] useShop] =
      contextsOfA plainWorld startedService [.fromA {} [] useShop] := by
  refine storageService_sessions_isolated plainWorld startedService _ _ rfl ?_
  intro a ha b hb
  simp only [requestsOfA, requestsOfB, List.filterMap_cons, List.filterMap_nil, List.append_nil,
    List.mem_singleton] at ha hb
  rw [ha, hb]
  exact useShop_apart_login

def selectAsCli : Request := { requestId := ascii "cli", sql := ascii "SELECT * FROM t" }

/-- A login of one client makes the other client, who sent no credentials, the
administrator. -/
theorem storageService_shares_login :
    contextsOfA plainWorld startedService
        [.fromB {} [] (loginAdmin "cli"), .fromA {} [] selectAsCli] =
      [{ clientId := ascii "cli", userId := ascii "admin", authenticated := true }] ∧
    contextsOfA plainWorld startedService [.fromA {} [] selectAsCli] =
      [{ clientId := ascii "cli" }] := by
  refine ⟨?_, ?_⟩ <;> decide +kernel

end StorageService

end CourseDb

import CourseDb.Server.StorageService

/-! # What a user can gain

GRANT and ADD USER TO GROUP require no permission, so a user can hand out rights
to the own account. This module says exactly which statements enlarge what a user
holds.
-/

namespace CourseDb

namespace StorageService

open RbacStore

variable {δ : Type} (w : ServiceWorld δ)

/-- The statement would give the permission to the user, who may hold it already. -/
def Offers (u : ByteString) (rbac : RbacStore) (p : Permission) : SqlStatement → Prop
  | .grant permission .user name =>
    u = name ∧ rbac.userExists name = true ∧
      ∃ perm, Permission.parse permission = .ok perm ∧ allows perm.mask p = true
  | .grant permission .group name =>
    (∃ record, rbac.users u = some record ∧ name ∈ record.groups) ∧
      (rbac.groups name).isSome = true ∧
      ∃ perm, Permission.parse permission = .ok perm ∧ allows perm.mask p = true
  | .addUserToGroup userId groupName =>
    u = userId ∧ rbac.userExists userId = true ∧ GroupAllows rbac groupName p
  | _ => False

/-- After a statement a user holds what it offers, and of the rest no more than before. -/
theorem hasPermission_changeRights (env : ServiceEnv) (stmt : SqlStatement) (rbac : RbacStore)
    (u : ByteString) (p : Permission) :
    ((changeRights w env stmt rbac).2.hasPermission u p = true →
      rbac.hasPermission u p = true ∨ Offers u rbac p stmt) ∧
    (Offers u rbac p stmt → (changeRights w env stmt rbac).2.hasPermission u p = true) := by
  cases stmt with
  | createUser userId password =>
    simp only [changeRights, report_rbac, Offers, or_false, false_imp_iff, and_true]
    exact hasPermission_of_createUser _ _
  | dropUser userId =>
    simp only [changeRights, report_rbac, Offers, or_false, false_imp_iff, and_true]
    exact hasPermission_of_dropUser _
  | createGroup groupName =>
    simp only [changeRights, report_rbac, Offers, or_false, false_imp_iff, and_true]
    exact hasPermission_of_createGroup _
  | dropGroup groupName =>
    simp only [changeRights, report_rbac, Offers, or_false, false_imp_iff, and_true]
    exact hasPermission_of_dropGroup _
  | addUserToGroup userId groupName =>
    simp only [changeRights, report_rbac, Offers, hasPermission_addUserToGroup]
    exact ⟨id, .inr⟩
  | grant permission target name =>
    simp only [changeRights, grant]
    cases hparse : Permission.parse permission with
    | error e => cases target <;> simp +contextual [Offers, hparse]
    | ok perm =>
      cases target with
      | user =>
        simp only [report_rbac, Offers, hparse, hasPermission_grantToUser, Except.ok.injEq,
          exists_eq_left']
        exact ⟨id, .inr⟩
      | group =>
        simp only [report_rbac, Offers, hparse, hasPermission_grantToGroup, Except.ok.injEq,
          exists_eq_left']
        exact ⟨id, .inr⟩
  | revoke permission target name =>
    simp only [changeRights, revoke, Offers, or_false, false_imp_iff, and_true]
    cases Permission.parse permission with
    | error e => exact id
    | ok perm =>
      cases target with
      | user => exact fun h => hasPermission_of_revokeFromUser env.saving (by simpa using h)
      | group => exact fun h => hasPermission_of_revokeFromGroup env.saving (by simpa using h)
  | _ => simp [changeRights, Offers]

/-- The statement that an event makes the service carry out, with its context. -/
def acceptedStatement (s : StorageService δ) : Event → Option (SqlStatement × SessionContext)
  | .request env remoteAddr req =>
    match accept w env (sessionOf remoteAddr req) req s with
    | (.ok stmt, ctx) => some (stmt, ctx)
    | (.error _, _) => none
  | _ => none

/-- Only the statement that is carried out changes the users and groups. -/
theorem step_rbac (s : StorageService δ) (e : Event) :
    (acceptedStatement w s e = none ∧ (step w s e).2.rbac = s.rbac) ∨
      ∃ env stmt ctx, acceptedStatement w s e = some (stmt, ctx) ∧
        (step w s e).2.rbac = (changeRights w env stmt s.rbac).2 := by
  cases e with
  | request env remoteAddr req =>
    simp only [acceptedStatement, step, handleRequest]
    rcases accept w env (sessionOf remoteAddr req) req s with ⟨message | stmt, ctx⟩
    · exact .inl ⟨rfl, rfl⟩
    · exact .inr ⟨env, stmt, ctx, rfl, by cases stmt <;> rfl⟩
  | pickUp env => exact .inl ⟨rfl, rfl⟩
  | runTask env iteration i =>
    refine .inl ⟨rfl, ?_⟩
    simp only [step, runTask]
    split <;> rfl

/-- No elementary permission of the user is new after the step. -/
def NoGain (u : ByteString) (s : StorageService δ) (e : Event) : Prop :=
  ∀ p : Permission, p.Elementary → (step w s e).2.rbac.hasPermission u p = true →
    s.rbac.hasPermission u p = true

/-- What the service carries out comes from a session authenticated as the user. -/
def FromUser (u : ByteString) (s : StorageService δ) (e : Event) : Prop :=
  ∀ stmt ctx, acceptedStatement w s e = some (stmt, ctx) →
    ctx.authenticated = true ∧ ctx.userId = u

/-- The statement offers the user no elementary permission that the user lacks. -/
def Harmless (u : ByteString) (s : StorageService δ) (e : Event) : Prop :=
  ∀ stmt ctx, acceptedStatement w s e = some (stmt, ctx) →
    ∀ p : Permission, p.Elementary → Offers u s.rbac p stmt → s.rbac.hasPermission u p = true

theorem noGain_iff_harmless (u : ByteString) (s : StorageService δ) (e : Event) :
    NoGain w u s e ↔ Harmless w u s e := by
  rcases step_rbac w s e with ⟨hnone, hrbac⟩ | ⟨env, stmt, ctx, hsome, hrbac⟩
  · simp [NoGain, Harmless, hnone, hrbac]
  · have hchange := hasPermission_changeRights w env stmt s.rbac u
    simp only [NoGain, Harmless, hsome, hrbac]
    constructor
    · rintro h _ _ ⟨⟩ p hp hoffers
      exact h p hp ((hchange p).2 hoffers)
    · intro h p hp hafter
      rcases (hchange p).1 hafter with hbefore | hoffers
      · exact hbefore
      · exact h stmt ctx rfl p hp hoffers

/-- Neither the user nor a group of the user has all permissions. -/
def NotAdmin (u : ByteString) (rbac : RbacStore) : Prop :=
  ∀ record, rbac.users u = some record →
    record.permissions ≠ Permission.kAdmin.mask ∧
      ∀ name ∈ record.groups, ∀ g, rbac.groups name = some g →
        g.permissions ≠ Permission.kAdmin.mask

/-- The permissions of a user grow at no step of a run if and only if no statement
that is carried out offers the user a permission the user lacks. In such a run the
user ends with no more than at the start. -/
theorem storageService_escalation_iff (u : ByteString) (s : StorageService δ)
    (events : List Event) :
    (Along (step w) (NoGain w u) s events ↔ Along (step w) (Harmless w u) s events) ∧
      (Along (step w) (Harmless w u) s events → ∀ p : Permission, p.Elementary →
        (finalState (step w) s events).rbac.hasPermission u p = true →
          s.rbac.hasPermission u p = true) := by
  have hsteps : NoGain w u = Harmless w u := by
    funext s e
    exact propext (noGain_iff_harmless w u s e)
  refine ⟨by rw [hsteps], ?_⟩
  intro hrun p hp
  refine Along.invariant (I := fun t => t.rbac.hasPermission u p = true →
    s.rbac.hasPermission u p = true) ?_ id hrun
  intro t e hstart hharmless hafter
  exact hstart ((noGain_iff_harmless w u t e).mpr hharmless p hp hafter)

def readerService : StorageService Unit where
  rbac :=
    { storePath := "rbac.json"
      users := Function.update (fun _ => none) (ascii "eve")
        (some { userId := ascii "eve", passwordHash := [], permissions := Permission.kRead.mask })
      groups _ := none }
  taskQueue := {}
  sessionContexts _ := none
  engine := ()

def grantWriteToEve : Event :=
  .request {} [] { requestId := ascii "cli", sql := ascii "GRANT WRITE TO USER eve",
                   authToken := ascii "eve" }

theorem grantWriteToEve_accepted :
    acceptedStatement plainWorld readerService grantWriteToEve =
      some (.grant (ascii "WRITE") .user (ascii "eve"),
        { clientId := ascii "cli", userId := ascii "eve", authenticated := true }) := by
  decide +kernel

/-- A user who may only read grants itself the right to write. -/
theorem storageService_grants_itself :
    NotAdmin (ascii "eve") readerService.rbac ∧
      Along (step plainWorld) (FromUser plainWorld (ascii "eve")) readerService [grantWriteToEve] ∧
      readerService.rbac.hasPermission (ascii "eve") .kWrite = false ∧
      (finalState (step plainWorld) readerService [grantWriteToEve]).rbac.hasPermission
        (ascii "eve") .kWrite = true := by
  refine ⟨?_, ⟨?_, trivial⟩, by decide +kernel, by decide +kernel⟩
  · intro record hrecord
    simp only [readerService, Function.update_self, Option.some.injEq] at hrecord
    subst hrecord
    exact ⟨by decide, by simp⟩
  · intro stmt ctx haccepted
    rw [grantWriteToEve_accepted] at haccepted
    cases haccepted
    exact ⟨rfl, rfl⟩

end StorageService

end CourseDb

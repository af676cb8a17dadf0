import CourseDb.Auth.Rbac

/-! # Rights as the history of grants

What a user may do follows from the operations on the store: a bit is held if
it was granted and not revoked since, and dropping a user or a group forgets
what it held. The masks of the store record exactly this. The check of a
permission asks for one bit of it only, which is all of it for every permission
but ADMIN.
-/

namespace CourseDb

/-- The bit belongs to the permission. -/
def Permission.HasBit (p : Permission) (bit : Fin 32) : Prop :=
  p.mask.toBitVec.getLsbD bit = true

instance (p : Permission) (bit : Fin 32) : Decidable (p.HasBit bit) :=
  inferInstanceAs (Decidable (_ = _))

namespace RbacStore

variable {g u : ByteString} {bit : Fin 32}

/-- The operations that change the store. -/
inductive Op where
  | createUser (salt userId password : ByteString)
  | dropUser (userId : ByteString)
  | createGroup (groupName : ByteString)
  | dropGroup (groupName : ByteString)
  | addUserToGroup (userId groupName : ByteString)
  | removeUserFromGroup (userId groupName : ByteString)
  | grantToUser (userId : ByteString) (perm : Permission)
  | grantToGroup (groupName : ByteString) (perm : Permission)
  | revokeFromUser (userId : ByteString) (perm : Permission)
  | revokeFromGroup (groupName : ByteString) (perm : Permission)

/-- The store after an operation that is saved. -/
def apply (crypto : Crypto) (s : RbacStore) : Op → RbacStore
  | .createUser salt userId password => (createUser crypto .written salt userId password s).2
  | .dropUser userId => (dropUser .written userId s).2
  | .createGroup groupName => (createGroup .written groupName s).2
  | .dropGroup groupName => (dropGroup .written groupName s).2
  | .addUserToGroup userId groupName => (addUserToGroup .written userId groupName s).2
  | .removeUserFromGroup userId groupName => (removeUserFromGroup .written userId groupName s).2
  | .grantToUser userId perm => (grantToUser .written userId perm s).2
  | .grantToGroup groupName perm => (grantToGroup .written groupName perm s).2
  | .revokeFromUser userId perm => (revokeFromUser .written userId perm s).2
  | .revokeFromGroup groupName perm => (revokeFromGroup .written groupName perm s).2

/-- A freshly opened store after operations, the latest of them first. -/
def after (crypto : Crypto) (storePath : String) (salt : ByteString) : List Op → RbacStore
  | [] => fresh crypto storePath salt
  | op :: past => apply crypto (after crypto storePath salt past) op

/-! ## What the history says -/

namespace History

variable {past : List Op}

/-- The user was created, or is the first one, and was not dropped since. -/
def HasUser : List Op → ByteString → Prop
  | [], u => u = ascii "admin"
  | .createUser _ userId _ :: past, u => u = userId ∨ HasUser past u
  | .dropUser userId :: past, u => u ≠ userId ∧ HasUser past u
  | _ :: past, u => HasUser past u

def HasGroup : List Op → ByteString → Prop
  | [], _ => False
  | .createGroup groupName :: past, g => g = groupName ∨ HasGroup past g
  | .dropGroup groupName :: past, g => g ≠ groupName ∧ HasGroup past g
  | _ :: past, g => HasGroup past g

/-- The user was added to the group, and neither was removed since. -/
def Member : List Op → ByteString → ByteString → Prop
  | [], _, _ => False
  | .dropUser userId :: past, u, g => u ≠ userId ∧ Member past u g
  | .dropGroup groupName :: past, u, g => g ≠ groupName ∧ Member past u g
  | .addUserToGroup userId groupName :: past, u, g =>
    u = userId ∧ g = groupName ∧ HasUser past userId ∧ HasGroup past groupName ∨ Member past u g
  | .removeUserFromGroup userId groupName :: past, u, g =>
    ¬ (u = userId ∧ g = groupName) ∧ Member past u g
  | _ :: past, u, g => Member past u g

/-- The bit was granted to the user and not revoked since. -/
def UserBit (bit : Fin 32) : List Op → ByteString → Prop
  | [], u => u = ascii "admin"
  | .dropUser userId :: past, u => u ≠ userId ∧ UserBit bit past u
  | .grantToUser userId perm :: past, u =>
    u = userId ∧ HasUser past userId ∧ perm.HasBit bit ∨ UserBit bit past u
  | .revokeFromUser userId perm :: past, u =>
    ¬ (u = userId ∧ perm.HasBit bit) ∧ UserBit bit past u
  | _ :: past, u => UserBit bit past u

/-- The bit was granted to the group and not revoked since. -/
def GroupBit (bit : Fin 32) : List Op → ByteString → Prop
  | [], _ => False
  | .dropGroup groupName :: past, g => g ≠ groupName ∧ GroupBit bit past g
  | .grantToGroup groupName perm :: past, g =>
    g = groupName ∧ HasGroup past groupName ∧ perm.HasBit bit ∨ GroupBit bit past g
  | .revokeFromGroup groupName perm :: past, g =>
    ¬ (g = groupName ∧ perm.HasBit bit) ∧ GroupBit bit past g
  | _ :: past, g => GroupBit bit past g

/-- Nobody is a member of a group that does not exist, and no unknown user is. -/
theorem Member.exists (h : Member past u g) : HasUser past u ∧ HasGroup past g := by
  induction past with
  | nil => exact h.elim
  | cons op past ih => cases op <;> simp only [Member, HasUser, HasGroup] at h ⊢ <;> grind

theorem UserBit.hasUser (h : UserBit bit past u) : HasUser past u := by
  induction past with
  | nil => exact h
  | cons op past ih => cases op <;> simp only [UserBit, HasUser] at h ⊢ <;> grind

theorem GroupBit.hasGroup (h : GroupBit bit past g) : HasGroup past g := by
  induction past with
  | nil => exact h
  | cons op past ih => cases op <;> simp only [GroupBit, HasGroup] at h ⊢ <;> grind

/-- A user that did not exist starts with no rights and no memberships. -/
def UserStartsEmpty (past : List Op) (u : ByteString) : Prop :=
  ∀ salt password, ¬ HasUser past u →
    (∀ bit, ¬ UserBit bit (.createUser salt u password :: past) u) ∧
      ∀ g, ¬ Member (.createUser salt u password :: past) u g

/-- A group that did not exist starts with no rights and no members. -/
def GroupStartsEmpty (past : List Op) (g : ByteString) : Prop :=
  ¬ HasGroup past g → (∀ bit, ¬ GroupBit bit (.createGroup g :: past) g) ∧
    ∀ u, ¬ Member (.createGroup g :: past) u g

theorem userStartsEmpty (past : List Op) (u : ByteString) : UserStartsEmpty past u :=
  fun _ _ hnew => ⟨fun bit h => hnew (show UserBit bit past u from h).hasUser,
    fun g h => hnew (show Member past u g from h).exists.1⟩

theorem groupStartsEmpty (past : List Op) (g : ByteString) : GroupStartsEmpty past g :=
  fun hnew => ⟨fun bit h => hnew (show GroupBit bit past g from h).hasGroup,
    fun u h => hnew (show Member past u g from h).exists.2⟩

/-- The user has every bit of the permission, itself or through one group. -/
def Entitled (past : List Op) (u : ByteString) (p : Permission) : Prop :=
  HasUser past u ∧ ((∀ bit, p.HasBit bit → UserBit bit past u) ∨
    ∃ g, HasGroup past g ∧ Member past u g ∧ ∀ bit, p.HasBit bit → GroupBit bit past g)

/-- No bit is held, by the user or by one of its groups. -/
def HoldsNothing (past : List Op) (u : ByteString) : Prop :=
  ∀ bit, ¬ UserBit bit past u ∧ ∀ g, Member past u g → ¬ GroupBit bit past g

/-- All bits are held, by the user or by one of its groups. -/
def HoldsEverything (past : List Op) (u : ByteString) : Prop :=
  (∀ bit, UserBit bit past u) ∨ ∃ g, Member past u g ∧ ∀ bit, GroupBit bit past g

end History

/-! ## What the store records -/

def IsUser (s : RbacStore) (u : ByteString) : Prop := ∃ r, s.users u = some r

def IsGroup (s : RbacStore) (g : ByteString) : Prop := ∃ r, s.groups g = some r

def IsMember (s : RbacStore) (u g : ByteString) : Prop := ∃ r, s.users u = some r ∧ g ∈ r.groups

def UserHasBit (s : RbacStore) (u : ByteString) (bit : Fin 32) : Prop :=
  ∃ r, s.users u = some r ∧ r.permissions.toBitVec.getLsbD bit = true

def GroupHasBit (s : RbacStore) (g : ByteString) (bit : Fin 32) : Prop :=
  ∃ r, s.groups g = some r ∧ r.permissions.toBitVec.getLsbD bit = true

structure Records (s : RbacStore) (past : List Op) : Prop where
  user : ∀ u, IsUser s u ↔ History.HasUser past u
  group : ∀ g, IsGroup s g ↔ History.HasGroup past g
  member : ∀ u g, IsMember s u g ↔ History.Member past u g
  userBit : ∀ u bit, UserHasBit s u bit ↔ History.UserBit bit past u
  groupBit : ∀ g bit, GroupHasBit s g bit ↔ History.GroupBit bit past g

section Steps

open History

variable {s : RbacStore} {past : List Op} {userId groupName : ByteString} {op : Op}
  (crypto : Crypto)

/-- The record of a user is what the history says. -/
def UserAgrees (past : List Op) (u : ByteString) : Option UserRecord → Prop
  | none => ¬ HasUser past u ∧ (∀ g, ¬ Member past u g) ∧ ∀ bit, ¬ UserBit bit past u
  | some r => HasUser past u ∧ (∀ g, g ∈ r.groups ↔ Member past u g) ∧
      ∀ bit : Fin 32, r.permissions.toBitVec.getLsbD bit = true ↔ UserBit bit past u

def GroupAgrees (past : List Op) (g : ByteString) : Option GroupRecord → Prop
  | none => ¬ HasGroup past g ∧ ∀ bit, ¬ GroupBit bit past g
  | some r => HasGroup past g ∧
      ∀ bit : Fin 32, r.permissions.toBitVec.getLsbD bit = true ↔ GroupBit bit past g

attribute [local simp] UserAgrees GroupAgrees HasUser Member UserBit HasGroup GroupBit

theorem userAgrees_iff : UserAgrees past u (s.users u) ↔
    (IsUser s u ↔ HasUser past u) ∧ (∀ g, IsMember s u g ↔ Member past u g) ∧
      ∀ bit, UserHasBit s u bit ↔ UserBit bit past u := by
  cases hu : s.users u <;> simp [IsUser, IsMember, UserHasBit, hu]

theorem groupAgrees_iff : GroupAgrees past g (s.groups g) ↔
    (IsGroup s g ↔ HasGroup past g) ∧ ∀ bit, GroupHasBit s g bit ↔ GroupBit bit past g := by
  cases hg : s.groups g <;> simp [IsGroup, GroupHasBit, hg]

theorem records_iff : Records s past ↔
    (∀ u, UserAgrees past u (s.users u)) ∧ ∀ g, GroupAgrees past g (s.groups g) := by
  simp only [userAgrees_iff, groupAgrees_iff]
  constructor
  · exact fun hs => ⟨fun u => ⟨hs.user u, hs.member u, hs.userBit u⟩,
      fun g => ⟨hs.group g, hs.groupBit g⟩⟩
  · exact fun h => ⟨fun u => (h.1 u).1, fun g => (h.2 g).1, fun u => (h.1 u).2.1,
      fun u => (h.1 u).2.2, fun g => (h.2 g).2⟩

/-- The user whose record an operation changes. -/
def Op.user? : Op → Option ByteString
  | .createUser _ userId _ | .dropUser userId | .addUserToGroup userId _
  | .removeUserFromGroup userId _ | .grantToUser userId _ | .revokeFromUser userId _ => some userId
  | _ => none

/-- The group whose record an operation changes and nothing else. -/
def Op.group? : Op → Option ByteString
  | .createGroup groupName | .grantToGroup groupName _ | .revokeFromGroup groupName _ => some groupName
  | _ => none

theorem Records.user_step (hs : Records s past) (hop : op.user? = some userId) {q : Option UserRecord}
    (hself : UserAgrees past userId (s.users userId) → UserAgrees (op :: past) userId q) :
    Records (setUser userId q s) (op :: past) := by
  obtain ⟨husers, hgroups⟩ := records_iff.mp hs
  have hgroup : ∀ g r, GroupAgrees past g r → GroupAgrees (op :: past) g r := by
    cases op <;> cases hop <;> exact fun _ _ h => h
  have hother : ∀ u r, u ≠ userId → UserAgrees past u r → UserAgrees (op :: past) u r := by
    rintro u (_ | r) hne h <;> cases op <;> cases hop <;> simpa [hne] using h
  refine records_iff.mpr ⟨fun u => ?_, fun g => hgroup g _ (hgroups g)⟩
  by_cases hu : u = userId
  · simpa [setUser, hu] using hself (husers userId)
  · simpa [setUser, Function.update_of_ne hu] using hother u _ hu (husers u)

theorem Records.group_step (hs : Records s past) (hop : op.group? = some groupName)
    {q : Option GroupRecord}
    (hself : GroupAgrees past groupName (s.groups groupName) →
      GroupAgrees (op :: past) groupName q) :
    Records (setGroup groupName q s) (op :: past) := by
  obtain ⟨husers, hgroups⟩ := records_iff.mp hs
  have huser : ∀ u r, UserAgrees past u r → UserAgrees (op :: past) u r := by
    cases op <;> cases hop <;> exact fun _ _ h => h
  have hother : ∀ g r, g ≠ groupName → GroupAgrees past g r → GroupAgrees (op :: past) g r := by
    rintro g (_ | r) hne h <;> cases op <;> cases hop <;> simpa [hne] using h
  refine records_iff.mpr ⟨fun u => huser u _ (husers u), fun g => ?_⟩
  by_cases hg : g = groupName
  · simpa [setGroup, hg] using hself (hgroups groupName)
  · simpa [setGroup, Function.update_of_ne hg] using hother g _ hg (hgroups g)

theorem records_fresh (storePath : String) (salt : ByteString) :
    Records (fresh crypto storePath salt) [] := by
  have hfull : ∀ b : Fin 32, Permission.kAdmin.mask.toBitVec.getLsbD b = true := by decide
  refine records_iff.mpr ⟨fun u => ?_, fun g => ⟨id, fun _ => id⟩⟩
  by_cases hu : u = ascii "admin" <;> simp [fresh, hu, hfull]

section

variable (hs : Records s past) (saving : Saving)
include hs

theorem records_createUser (salt password : ByteString) :
    Records (createUser crypto saving salt userId password s).2
      (.createUser salt userId password :: past) := by
  rw [createUser_state]
  refine hs.user_step rfl fun h => ?_
  cases hu : s.users userId <;> rw [hu] at h <;>
    simp_all

theorem records_dropUser : Records (dropUser saving userId s).2 (.dropUser userId :: past) := by
  rw [dropUser_state]
  exact hs.user_step rfl fun _ => ⟨fun h => h.1 rfl, fun g h => h.1 rfl, fun bit h => h.1 rfl⟩

theorem records_createGroup :
    Records (createGroup saving groupName s).2 (.createGroup groupName :: past) := by
  rw [createGroup_state]
  refine hs.group_step rfl fun h => ?_
  cases hg : s.groups groupName <;> rw [hg] at h <;> simp_all

theorem records_dropGroup :
    Records (dropGroup saving groupName s).2 (.dropGroup groupName :: past) := by
  obtain ⟨husers, hgroups⟩ := records_iff.mp hs
  rw [dropGroup_state, records_iff]
  cases hg : s.groups groupName with
  | none =>
    have hnone : ¬ HasGroup past groupName := (hg ▸ hgroups groupName).1
    constructor
    · intro u
      have hmember : ∀ g, Member (.dropGroup groupName :: past) u g ↔ Member past u g :=
        fun g => ⟨And.right, fun h => ⟨fun heq => hnone (heq ▸ h.exists.2), h⟩⟩
      have hu := husers u
      cases hr : s.users u <;> rw [hr] at hu <;> simpa [-Member, hmember] using hu
    · intro g
      have h := hgroups g
      by_cases heq : g = groupName
      · rw [heq, hg]
        exact ⟨fun h => h.1 rfl, fun bit h => h.1 rfl⟩
      · cases hr : s.groups g <;> rw [hr] at h <;>
          simpa [heq] using h
  | some r =>
    constructor
    · intro u
      have hu := husers u
      cases hr : s.users u <;> rw [hr] at hu <;>
        simp_all [leaveGroup]
    · intro g
      have h := hgroups g
      by_cases heq : g = groupName
      · simp [setGroup, heq]
      · cases hr : s.groups g <;> rw [hr] at h <;>
          simpa [setGroup, heq, hr] using h

theorem records_grantToUser (perm : Permission) :
    Records (grantToUser saving userId perm s).2 (.grantToUser userId perm :: past) := by
  rw [grantToUser, updateUser_state]
  refine hs.user_step rfl fun h => ?_
  cases hu : s.users userId <;> rw [hu] at h <;>
    simp_all [Permission.HasBit, or_comm]

theorem records_revokeFromUser (perm : Permission) :
    Records (revokeFromUser saving userId perm s).2 (.revokeFromUser userId perm :: past) := by
  rw [revokeFromUser, updateUser_state]
  refine hs.user_step rfl fun h => ?_
  cases hu : s.users userId <;> rw [hu] at h <;>
    simp_all [Permission.HasBit, and_comm]

theorem records_removeUserFromGroup :
    Records (removeUserFromGroup saving userId groupName s).2
      (.removeUserFromGroup userId groupName :: past) := by
  rw [removeUserFromGroup, updateUser_state]
  refine hs.user_step rfl fun h => ?_
  cases hu : s.users userId <;> rw [hu] at h <;>
    simp_all [leaveGroup]

theorem records_grantToGroup (perm : Permission) :
    Records (grantToGroup saving groupName perm s).2 (.grantToGroup groupName perm :: past) := by
  rw [grantToGroup, updateGroup_state]
  refine hs.group_step rfl fun h => ?_
  cases hg : s.groups groupName <;> rw [hg] at h <;>
    simp_all [Permission.HasBit, or_comm]

theorem records_revokeFromGroup (perm : Permission) :
    Records (revokeFromGroup saving groupName perm s).2
      (.revokeFromGroup groupName perm :: past) := by
  rw [revokeFromGroup, updateGroup_state]
  refine hs.group_step rfl fun h => ?_
  cases hg : s.groups groupName <;> rw [hg] at h <;>
    simp_all [Permission.HasBit, and_comm]

theorem records_addUserToGroup :
    Records (addUserToGroup saving userId groupName s).2
      (.addUserToGroup userId groupName :: past) := by
  have hgroups := (records_iff.mp hs).2 groupName
  rw [addUserToGroup_state]
  cases hu : s.users userId with
  | none =>
    rw [← setUser_self hu]
    refine hs.user_step rfl fun h => ?_
    rw [hu] at h
    simp_all
  | some r =>
    cases hg : s.groups groupName with
    | none =>
      rw [← setUser_self hu]
      refine hs.user_step rfl fun h => ?_
      rw [hu] at h
      rw [hg] at hgroups
      simp_all
    | some q =>
      refine hs.user_step rfl fun h => ?_
      rw [hu] at h
      rw [hg] at hgroups
      simp_all

end

theorem records_apply (hs : Records s past) (op : Op) :
    Records (apply crypto s op) (op :: past) := by
  cases op with
  | createUser salt userId password => exact records_createUser crypto hs .written salt password
  | dropUser userId => exact records_dropUser hs .written
  | createGroup groupName => exact records_createGroup hs .written
  | dropGroup groupName => exact records_dropGroup hs .written
  | addUserToGroup userId groupName => exact records_addUserToGroup hs .written
  | removeUserFromGroup userId groupName => exact records_removeUserFromGroup hs .written
  | grantToUser userId perm => exact records_grantToUser hs .written perm
  | grantToGroup groupName perm => exact records_grantToGroup hs .written perm
  | revokeFromUser userId perm => exact records_revokeFromUser hs .written perm
  | revokeFromGroup groupName perm => exact records_revokeFromGroup hs .written perm

theorem records_after (storePath : String) (salt : ByteString) (past : List Op) :
    Records (after crypto storePath salt past) past := by
  induction past with
  | nil => exact records_fresh crypto storePath salt
  | cons op past ih => exact records_apply crypto ih op

end Steps

/-! ## The check of a permission -/

section Check

open History

variable {s : RbacStore} {past : List Op} {u : ByteString} {p : Permission}

theorem allows_iff_bit {m : UInt32} :
    allows m p = true ↔ ∃ bit : Fin 32, p.HasBit bit ∧ m.toBitVec.getLsbD bit = true := by
  rw [allows_iff, ← not_iff_not, not_not]
  constructor
  · rintro hzero ⟨bit, hp, hm⟩
    rw [Permission.HasBit] at hp
    have hbit : (m &&& p.mask).toBitVec.getLsbD bit = false := by simp [hzero]
    rw [UInt32.toBitVec_and, BitVec.getLsbD_and, hm, hp] at hbit
    cases hbit
  · intro hnone
    refine UInt32.toBitVec_inj.mp (BitVec.eq_of_getLsbD_eq fun i hi => ?_)
    rw [UInt32.toBitVec_and, BitVec.getLsbD_and, UInt32.toBitVec_zero, BitVec.getLsbD_zero,
      Bool.and_eq_false_iff]
    by_contra! h
    exact hnone ⟨⟨i, hi⟩, by simpa [Permission.HasBit] using h.2, by simpa using h.1⟩

/-- What the check asks for: one bit of the permission. -/
theorem hasPermission_iff_bit (hs : Records s past) :
    s.hasPermission u p = true ↔ HasUser past u ∧
      ((∃ bit, p.HasBit bit ∧ UserBit bit past u) ∨
        ∃ g, Member past u g ∧ ∃ bit, p.HasBit bit ∧ GroupBit bit past g) := by
  simp only [← hs.user, ← hs.member, ← hs.userBit, ← hs.groupBit]
  rw [hasPermission_iff]
  unfold IsUser UserHasBit IsMember GroupHasBit
  cases hu : s.users u with
  | none => simp
  | some r => simp [Holds, GroupAllows, allows_iff_bit]; aesop

theorem exists_bit_iff (hp : p ≠ .kAdmin) {P : Fin 32 → Prop} :
    (∃ bit, p.HasBit bit ∧ P bit) ↔ ∀ bit, p.HasBit bit → P bit := by
  obtain ⟨only, honly⟩ : ∃ only : Fin 32, ∀ bit, p.HasBit bit ↔ bit = only := by
    cases p with
    | kAdmin => exact absurd rfl hp
    | kRead => exact ⟨0, by decide⟩
    | kWrite => exact ⟨1, by decide⟩
    | kCreateTable => exact ⟨2, by decide⟩
    | kDropTable => exact ⟨3, by decide⟩
    | kDropDatabase => exact ⟨4, by decide⟩
    | kAlterTable => exact ⟨5, by decide⟩
  simp [honly]

theorem hasBit_kAdmin (bit : Fin 32) : Permission.kAdmin.HasBit bit := by
  revert bit
  decide

theorem hasPermission_elementary_iff (hs : Records s past) (hp : p ≠ .kAdmin) :
    s.hasPermission u p = true ↔ Entitled past u p := by
  rw [hasPermission_iff_bit hs, Entitled, exists_bit_iff hp]
  refine and_congr_right fun _ => or_congr_right (exists_congr fun g => ?_)
  rw [exists_bit_iff hp]
  exact ⟨fun h => ⟨h.1.exists.2, h⟩, And.right⟩

/-- The check for ADMIN is exact for the users with no bit and for those with all bits. -/
theorem hasPermission_kAdmin_iff (hs : Records s past) :
    (s.hasPermission u .kAdmin = true ↔ Entitled past u .kAdmin) ↔
      HoldsNothing past u ∨ HoldsEverything past u := by
  rw [hasPermission_iff_bit hs, Entitled]
  simp only [hasBit_kAdmin, true_and, forall_const]
  constructor
  · intro h
    by_cases hnothing : HoldsNothing past u
    · exact .inl hnothing
    · simp only [HoldsNothing, not_forall, not_and_or, not_not] at hnothing
      obtain ⟨bit, hown | ⟨g, hmember, hbit⟩⟩ := hnothing
      · obtain ⟨-, hall | ⟨g, -, hall⟩⟩ := h.mp ⟨hown.hasUser, .inl ⟨bit, hown⟩⟩
        · exact .inr (.inl hall)
        · exact .inr (.inr ⟨g, hall⟩)
      · obtain ⟨-, hall | ⟨g, -, hall⟩⟩ := h.mp ⟨hmember.exists.1, .inr ⟨g, hmember, bit, hbit⟩⟩
        · exact .inr (.inl hall)
        · exact .inr (.inr ⟨g, hall⟩)
  · rintro (hnothing | hall)
    · refine and_congr_right fun _ => iff_of_false ?_ ?_
      · rintro (⟨bit, hown⟩ | ⟨g, hmember, bit, hbit⟩)
        · exact (hnothing bit).1 hown
        · exact (hnothing bit).2 g hmember hbit
      · rintro (hown | ⟨g, -, hmember, hbit⟩)
        · exact (hnothing 0).1 (hown 0)
        · exact (hnothing 0).2 g hmember (hbit 0)
    · refine and_congr_right fun _ => iff_of_true ?_ ?_
      · rcases hall with hown | ⟨g, hmember, hbit⟩
        · exact .inl ⟨0, hown 0⟩
        · exact .inr ⟨g, hmember, 0, hbit 0⟩
      · rcases hall with hown | ⟨g, hmember, hbit⟩
        · exact .inl hown
        · exact .inr ⟨g, hmember.exists.2, hmember, hbit⟩

end Check

/-- After every history the masks are the bits granted and not revoked since, and new users
and groups start empty. The check then asks for all bits of a permission, except that for
ADMIN one bit of it is enough. -/
theorem hasPermission_entitled_iff (crypto : Crypto) (storePath : String) (salt : ByteString)
    (past : List Op) (u g : ByteString) (p : Permission) :
    (Records (after crypto storePath salt past) past ∧ History.UserStartsEmpty past u ∧
        History.GroupStartsEmpty past g) ∧
      (((after crypto storePath salt past).hasPermission u p = true ↔ History.Entitled past u p) ↔
        (p = .kAdmin → History.HoldsNothing past u ∨ History.HoldsEverything past u)) := by
  have hs := records_after crypto storePath salt past
  refine ⟨⟨hs, History.userStartsEmpty past u, History.groupStartsEmpty past g⟩, ?_⟩
  by_cases hp : p = .kAdmin
  · subst hp
    simp only [forall_const]
    exact hasPermission_kAdmin_iff hs
  · exact iff_of_true (hasPermission_elementary_iff hs hp) fun h => absurd h hp

/-- A key derivation for the closed example below. -/
def constantCrypto : Crypto :=
  ⟨fun _ _ _ => List.replicate 32 0, fun _ _ _ => List.length_replicate ..⟩

/-- READ is enough to pass the check for ADMIN. -/
theorem hasPermission_admin_by_read :
    (after constantCrypto "rbac.json" [] [.grantToUser (ascii "eve") .kRead,
        .createUser [] (ascii "eve") (ascii "pw")]).hasPermission (ascii "eve") .kAdmin = true ∧
      ¬ History.Entitled [.grantToUser (ascii "eve") .kRead,
        .createUser [] (ascii "eve") (ascii "pw")] (ascii "eve") .kAdmin := by
  have heve : ascii "eve" ≠ ascii "admin" := by decide
  constructor
  · rw [hasPermission_iff_bit (records_after ..)]
    exact ⟨.inl rfl, .inl ⟨0, hasBit_kAdmin 0, .inl ⟨rfl, .inl rfl, by decide⟩⟩⟩
  · rintro ⟨-, hown | ⟨g, hgroup, -⟩⟩
    · -- bit 1 is WRITE
      rcases hown 1 (hasBit_kAdmin 1) with ⟨-, -, hbit⟩ | hold
      · exact absurd hbit (by decide)
      · exact heve hold
    · exact hgroup

end RbacStore

end CourseDb

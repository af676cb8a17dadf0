import CourseDb.Common.Text
import CourseDb.Lib.Fallible

/-! # Users, groups and permissions

The store of users with their password hashes, groups and permission masks. A
change is made in memory first and then saved; a failed save is reported, but
the change stays.
-/

namespace CourseDb

open Fallible (read_bind bind_ok modify_apply fail)

inductive Permission where
  | kRead
  | kWrite
  | kCreateTable
  | kDropTable
  | kDropDatabase
  | kAlterTable
  | kAdmin
deriving DecidableEq, Repr

namespace Permission

def mask : Permission → UInt32
  | kRead => 1
  | kWrite => 2
  | kCreateTable => 4
  | kDropTable => 8
  | kDropDatabase => 16
  | kAlterTable => 32
  | kAdmin => 0xFFFFFFFF

/-- `PermissionName`. -/
def name : Permission → String
  | kRead => "READ"
  | kWrite => "WRITE"
  | kCreateTable => "CREATE_TABLE"
  | kDropTable => "DROP_TABLE"
  | kDropDatabase => "DROP_DATABASE"
  | kAlterTable => "ALTER_TABLE"
  | kAdmin => "ADMIN"

/-- `ParsePermission`. -/
def parse (text : ByteString) : Except Status Permission :=
  match [kRead, kWrite, kCreateTable, kDropTable, kDropDatabase, kAlterTable, kAdmin].find?
      fun p => text = ascii p.name with
  | some p => .ok p
  | none => .error ⟨.kInvalidArgument, "unknown permission: " ++ quoted text⟩

/-- The permissions of one bit. -/
def Elementary (p : Permission) : Prop := p ≠ kAdmin

end Permission

/-- The third-party key derivation, as a fixed function. -/
structure Crypto where
  pbkdf2 : (password salt : ByteString) → (iterations : ℕ) → ByteString
  length_eq : ∀ password salt iterations, (pbkdf2 password salt iterations).length = 32

namespace Password

def kPbkdf2Iters : ℕ := 260000

def hexDigit (n : ℕ) : Byte := Fin.ofNat 256 (if n < 10 then 48 + n else 87 + n)

def hexEncode (data : ByteString) : ByteString :=
  data.flatMap fun b => [hexDigit (b.val / 16), hexDigit (b.val % 16)]

def hexValue (b : Byte) : Option ℕ :=
  if 48 ≤ b.val ∧ b.val ≤ 57 then some (b.val - 48)
  else if 97 ≤ b.val ∧ b.val ≤ 102 then some (b.val - 87)
  else if 65 ≤ b.val ∧ b.val ≤ 70 then some (b.val - 55)
  else none

/-- `std::strtoul` on two characters, which have to be used up: it skips a blank
and takes a sign. -/
def hexPair (a b : Byte) : Option Byte :=
  match hexValue a, hexValue b with
  | some x, some y => some (Fin.ofNat 256 (16 * x + y))
  | none, some y =>
    if (9 ≤ a.val ∧ a.val ≤ 13) ∨ a.val = 32 ∨ a.val = 43 then some (Fin.ofNat 256 y)
    else if a.val = 45 then some (Fin.ofNat 256 (256 - y))
    else none
  | _, none => none

def hexDecode : ByteString → Option ByteString
  | [] => some []
  | [_] => none
  | a :: b :: rest => do
    let byte ← hexPair a b
    let bytes ← hexDecode rest
    return byte :: bytes

def dollar : Byte := 36

def saltedHash (crypto : Crypto) (salt password : ByteString) : ByteString :=
  ascii "pbkdf2$" ++ ascii (toString kPbkdf2Iters) ++ ascii "$" ++ hexEncode salt ++ ascii "$" ++
    hexEncode (crypto.pbkdf2 password salt kPbkdf2Iters)

/-- `std::getline` up to a dollar sign; it fails at the end of the text. -/
def getline (text : ByteString) : Option (ByteString × ByteString) :=
  if text.isEmpty then none
  else some (text.takeWhile (· ≠ dollar), (text.dropWhile (· ≠ dollar)).tail)

/-- `std::stoi` on a text that starts with digits, as every stored count does. -/
def stoi (text : ByteString) : ℕ :=
  (text.takeWhile fun b => 48 ≤ b.val ∧ b.val ≤ 57).foldl (fun n b => 10 * n + (b.val - 48)) 0

/-- The parts of a stored hash: the count, the salt and the digest. -/
def parseStored (stored : ByteString) : Option (ℕ × ByteString × ByteString) := do
  guard ((ascii "pbkdf2$").isPrefixOf stored)
  let (iters, rest) ← getline (stored.drop 7)
  let (saltHex, rest) ← getline rest
  let (hashHex, _) ← getline rest
  let salt ← hexDecode saltHex
  let hash ← hexDecode hashHex
  return (stoi iters, salt, hash)

/-- All bytes are compared, whatever the first of them are. -/
def timingSafeEqual (a b : ByteString) : Bool :=
  (a.zip b).foldl (fun diff p => diff ||| (p.1.val ^^^ p.2.val)) 0 = 0

def verifyPassword (crypto : Crypto) (password stored : ByteString) : Bool :=
  match parseStored stored with
  | none => false
  | some (iters, salt, hash) =>
    hash.length = 32 ∧ timingSafeEqual (crypto.pbkdf2 password salt iters) hash

end Password

structure UserRecord where
  userId : ByteString
  passwordHash : ByteString
  groups : Finset ByteString := ∅
  permissions : UInt32 := 0
deriving DecidableEq

structure GroupRecord where
  name : ByteString
  permissions : UInt32 := 0
deriving DecidableEq

structure RbacStore where
  storePath : String
  users : ByteString → Option UserRecord
  groups : ByteString → Option GroupRecord

namespace RbacStore

abbrev Action (α : Type) := Fallible Status RbacStore α

/-- How writing the store to its file ends. -/
inductive Saving where
  | written
  | cannotWrite
  | cannotRename (why : String)
deriving DecidableEq

variable (crypto : Crypto) (saving : Saving) {u : Option UserRecord} {p : Permission}
  {g : Option GroupRecord}

/-- The store that `Open` makes where there is no file. -/
def fresh (storePath : String) (salt : ByteString) : RbacStore where
  storePath
  users := Function.update (fun _ => none) (ascii "admin") (some
    { userId := ascii "admin"
      passwordHash := Password.saltedHash crypto salt (ascii "admin")
      permissions := Permission.kAdmin.mask })
  groups _ := none

def save : Action Unit := do
  let s ← Fallible.read
  match saving with
  | .written => return ()
  | .cannotWrite =>
    fail ⟨.kIoError, "cannot write rbac store: " ++ s.storePath ++ ".tmp"⟩
  | .cannotRename why => fail ⟨.kIoError, "cannot rename rbac store: " ++ why⟩

def userNotFound (userId : ByteString) : Status :=
  ⟨.kNotFound, "user not found: " ++ quoted userId⟩

def groupNotFound (groupName : ByteString) : Status :=
  ⟨.kNotFound, "group not found: " ++ quoted groupName⟩

def setUser (userId : ByteString) (u : Option UserRecord) (s : RbacStore) : RbacStore :=
  { s with users := Function.update s.users userId u }

def setGroup (groupName : ByteString) (g : Option GroupRecord) (s : RbacStore) : RbacStore :=
  { s with groups := Function.update s.groups groupName g }

def createUser (salt userId plaintextPassword : ByteString) : Action Unit := do
  let s ← Fallible.read
  match s.users userId with
  | some _ => fail ⟨.kAlreadyExists, "user already exists: " ++ quoted userId⟩
  | none =>
    Fallible.modify (setUser userId
      (some { userId, passwordHash := Password.saltedHash crypto salt plaintextPassword }))
    save saving

def dropUser (userId : ByteString) : Action Unit := do
  let s ← Fallible.read
  match s.users userId with
  | none => fail (userNotFound userId)
  | some _ =>
    Fallible.modify (setUser userId none)
    save saving

def checkPassword (userId plaintextPassword : ByteString) (s : RbacStore) : Bool :=
  match s.users userId with
  | none => false
  | some u => Password.verifyPassword crypto plaintextPassword u.passwordHash

def createGroup (groupName : ByteString) : Action Unit := do
  let s ← Fallible.read
  match s.groups groupName with
  | some _ => fail ⟨.kAlreadyExists, "group already exists: " ++ quoted groupName⟩
  | none =>
    Fallible.modify (setGroup groupName (some { name := groupName }))
    save saving

def leaveGroup (groupName : ByteString) (u : UserRecord) : UserRecord :=
  { u with groups := u.groups.erase groupName }

def dropGroup (groupName : ByteString) : Action Unit := do
  let s ← Fallible.read
  match s.groups groupName with
  | none => fail (groupNotFound groupName)
  | some _ =>
    Fallible.modify fun s =>
      { setGroup groupName none s with users := fun id => (s.users id).map (leaveGroup groupName) }
    save saving

/-- Change the record of a user who exists. -/
def updateUser (userId : ByteString) (f : UserRecord → UserRecord) : Action Unit := do
  let s ← Fallible.read
  match s.users userId with
  | none => fail (userNotFound userId)
  | some u =>
    Fallible.modify (setUser userId (some (f u)))
    save saving

def updateGroup (groupName : ByteString) (f : GroupRecord → GroupRecord) : Action Unit := do
  let s ← Fallible.read
  match s.groups groupName with
  | none => fail (groupNotFound groupName)
  | some g =>
    Fallible.modify (setGroup groupName (some (f g)))
    save saving

def addUserToGroup (userId groupName : ByteString) : Action Unit := do
  let s ← Fallible.read
  match s.users userId, s.groups groupName with
  | none, _ => fail (userNotFound userId)
  | some _, none => fail (groupNotFound groupName)
  | some u, some _ =>
    Fallible.modify (setUser userId (some { u with groups := insert groupName u.groups }))
    save saving

def removeUserFromGroup (userId groupName : ByteString) : Action Unit :=
  updateUser saving userId (leaveGroup groupName)

def grantToUser (userId : ByteString) (perm : Permission) : Action Unit :=
  updateUser saving userId fun u => { u with permissions := u.permissions ||| perm.mask }

def grantToGroup (groupName : ByteString) (perm : Permission) : Action Unit :=
  updateGroup saving groupName fun g => { g with permissions := g.permissions ||| perm.mask }

def revokeFromUser (userId : ByteString) (perm : Permission) : Action Unit :=
  updateUser saving userId fun u => { u with permissions := u.permissions &&& ~~~perm.mask }

def revokeFromGroup (groupName : ByteString) (perm : Permission) : Action Unit :=
  updateGroup saving groupName fun g => { g with permissions := g.permissions &&& ~~~perm.mask }

/-- A mask that has a permission: all bits, or one of the bits of the permission. -/
def allows (permissions : UInt32) (perm : Permission) : Bool :=
  permissions = Permission.kAdmin.mask || permissions &&& perm.mask ≠ 0

def hasPermission (s : RbacStore) (userId : ByteString) (perm : Permission) : Bool :=
  match s.users userId with
  | none => false
  | some u =>
    allows u.permissions perm ||
      decide (∃ name ∈ u.groups, (s.groups name).any fun g => allows g.permissions perm)

def userExists (s : RbacStore) (userId : ByteString) : Bool := (s.users userId).isSome

/-! ## What a mask allows -/

/-- The case of a full mask is covered by the test of the bits. -/
theorem allows_iff {m : UInt32} : allows m p = true ↔ m &&& p.mask ≠ 0 := by
  have hfull : Permission.kAdmin.mask &&& p.mask ≠ 0 := by cases p <;> decide
  simp only [allows, Bool.or_eq_true, decide_eq_true_eq]
  constructor
  · rintro (rfl | h)
    · exact hfull
    · exact h
  · exact .inr

theorem or_and_mask (a b m : UInt32) : (a ||| b) &&& m = (a &&& m) ||| (b &&& m) := by
  apply UInt32.toBitVec_inj.mp
  simp only [UInt32.toBitVec_and, UInt32.toBitVec_or]
  ext i
  simp [Bool.and_or_distrib_right]

theorem allows_or {a b : UInt32} :
    allows (a ||| b) p = true ↔ allows a p = true ∨ allows b p = true := by
  simp only [allows_iff, or_and_mask, ne_eq, UInt32.or_eq_zero_iff]
  tauto

theorem allows_of_and {a b : UInt32} (h : allows (a &&& b) p = true) : allows a p = true := by
  rw [allows_iff] at h ⊢
  intro hzero
  apply h
  rw [UInt32.and_assoc, UInt32.and_comm b, ← UInt32.and_assoc, hzero, UInt32.zero_and]

@[simp] theorem allows_zero (p : Permission) : allows 0 p = false := by
  rw [← Bool.not_eq_true, allows_iff, UInt32.zero_and]
  simp

/-! ## What a user holds -/

/-- The group exists and its mask allows the permission. -/
def GroupAllows (s : RbacStore) (groupName : ByteString) (p : Permission) : Prop :=
  ∃ g, s.groups groupName = some g ∧ allows g.permissions p = true

/-- The record allows the permission itself or through one of its groups. -/
def Holds (s : RbacStore) (u : UserRecord) (p : Permission) : Prop :=
  allows u.permissions p = true ∨ ∃ name ∈ u.groups, GroupAllows s name p

theorem hasPermission_iff {s : RbacStore} {userId : ByteString} :
    s.hasPermission userId p = true ↔ ∃ u, s.users userId = some u ∧ Holds s u p := by
  rw [hasPermission]
  cases s.users userId with
  | none => simp
  | some u => simp [Holds, GroupAllows, Option.any_eq_true]

@[simp] theorem save_state (s : RbacStore) : (save saving s).2 = s := by
  cases saving <;> rfl

/-- A change that is followed by a save leaves the changed store, saved or not. -/
theorem modify_save_state (f : RbacStore → RbacStore) (s : RbacStore) :
    ((Fallible.modify f >>= fun _ => save saving) s).2 = f s := by
  rw [bind_ok (modify_apply f s), save_state]

section State

variable {s : RbacStore} {userId groupName : ByteString}

theorem setUser_self (h : s.users userId = u) : setUser userId u s = s := by
  simp [setUser, ← h]

theorem setGroup_self (h : s.groups groupName = g) : setGroup groupName g s = s := by
  simp [setGroup, ← h]

theorem updateUser_state (f : UserRecord → UserRecord) :
    (updateUser saving userId f s).2 = setUser userId ((s.users userId).map f) s := by
  rw [updateUser, read_bind]
  cases hu : s.users userId with
  | none => exact (setUser_self hu).symm
  | some u => exact modify_save_state saving _ s

theorem updateGroup_state (f : GroupRecord → GroupRecord) :
    (updateGroup saving groupName f s).2 = setGroup groupName ((s.groups groupName).map f) s := by
  rw [updateGroup, read_bind]
  cases hg : s.groups groupName with
  | none => exact (setGroup_self hg).symm
  | some g => exact modify_save_state saving _ s

theorem createUser_state (salt password : ByteString) :
    (createUser crypto saving salt userId password s).2 = setUser userId (some
      ((s.users userId).getD
        { userId, passwordHash := Password.saltedHash crypto salt password })) s := by
  rw [createUser, read_bind]
  cases hu : s.users userId with
  | none => exact modify_save_state saving _ s
  | some u => exact (setUser_self hu).symm

theorem dropUser_state : (dropUser saving userId s).2 = setUser userId none s := by
  rw [dropUser, read_bind]
  cases hu : s.users userId with
  | none => exact (setUser_self hu).symm
  | some u => exact modify_save_state saving _ s

theorem createGroup_state : (createGroup saving groupName s).2 =
    setGroup groupName (some ((s.groups groupName).getD { name := groupName })) s := by
  rw [createGroup, read_bind]
  cases hg : s.groups groupName with
  | none => exact modify_save_state saving _ s
  | some g => exact (setGroup_self hg).symm

end State

theorem dropGroup_state (groupName : ByteString) (s : RbacStore) :
    (dropGroup saving groupName s).2 =
      match s.groups groupName with
      | none => s
      | some _ => { setGroup groupName none s with
          users := fun id => (s.users id).map (leaveGroup groupName) } := by
  rw [dropGroup, read_bind]
  cases s.groups groupName with
  | none => rfl
  | some g => exact modify_save_state saving _ s

theorem addUserToGroup_state (userId groupName : ByteString) (s : RbacStore) :
    (addUserToGroup saving userId groupName s).2 =
      match s.users userId, s.groups groupName with
      | some u, some _ => setUser userId (some { u with groups := insert groupName u.groups }) s
      | _, _ => s := by
  rw [addUserToGroup, read_bind]
  cases s.users userId with
  | none => rfl
  | some u =>
    cases s.groups groupName with
    | none => rfl
    | some g => exact modify_save_state saving _ s

/-! ## How the operations change what a user holds -/

section Changes

variable {s : RbacStore} {userId groupName v : ByteString} {p perm : Permission}

theorem hasPermission_setUser : (setUser userId u s).hasPermission v p = true ↔
    if v = userId then ∃ r, u = some r ∧ Holds s r p else s.hasPermission v p = true := by
  rw [hasPermission_iff, hasPermission_iff]
  split_ifs with h
  · simp only [h, setUser, Function.update_self]
    exact Iff.rfl
  · simp only [setUser, Function.update_of_ne h]
    exact Iff.rfl

theorem hasPermission_updateUser (f : UserRecord → UserRecord) :
    (updateUser saving userId f s).2.hasPermission v p = true ↔
      if v = userId then ∃ u, s.users userId = some u ∧ Holds s (f u) p
      else s.hasPermission v p = true := by
  rw [updateUser_state, hasPermission_setUser]
  simp

theorem groupAllows_setGroup {name : ByteString} :
    GroupAllows (setGroup groupName g s) name p ↔
      if name = groupName then ∃ g', g = some g' ∧ allows g'.permissions p = true
      else GroupAllows s name p := by
  split_ifs with h
  · simp [GroupAllows, setGroup, h]
  · simp [GroupAllows, setGroup, Function.update_of_ne h]

theorem hasPermission_of_setGroup
    (hg : ∀ r, g = some r → allows r.permissions p = true → GroupAllows s groupName p)
    (h : (setGroup groupName g s).hasPermission v p = true) : s.hasPermission v p = true := by
  obtain ⟨u, hu, hown | ⟨name, hname, hallows⟩⟩ := hasPermission_iff.mp h
  · exact hasPermission_iff.mpr ⟨u, hu, .inl hown⟩
  · refine hasPermission_iff.mpr ⟨u, hu, .inr ⟨name, hname, ?_⟩⟩
    rw [groupAllows_setGroup] at hallows
    split_ifs at hallows with heq
    · obtain ⟨r, hr, hallows⟩ := hallows
      exact heq ▸ hg r hr hallows
    · exact hallows

theorem hasPermission_of_createUser {salt password : ByteString}
    (h : (createUser crypto saving salt userId password s).2.hasPermission v p = true) :
    s.hasPermission v p = true := by
  rw [createUser_state, hasPermission_setUser] at h
  split_ifs at h with hv
  · obtain ⟨r, hr, hholds⟩ := h
    cases hu : s.users userId with
    | some u =>
      obtain rfl : u = r := by simpa [hu] using hr
      exact hasPermission_iff.mpr ⟨u, hv ▸ hu, hholds⟩
    | none =>
      -- a new user has no permission and no group
      rw [hu] at hr
      cases hr
      simp [Holds] at hholds
  · exact h

theorem hasPermission_of_dropUser (h : (dropUser saving userId s).2.hasPermission v p = true) :
    s.hasPermission v p = true := by
  rw [dropUser_state, hasPermission_setUser] at h
  split_ifs at h with hv
  · simp at h
  · exact h

theorem hasPermission_of_createGroup
    (h : (createGroup saving groupName s).2.hasPermission v p = true) :
    s.hasPermission v p = true := by
  rw [createGroup_state] at h
  refine hasPermission_of_setGroup (fun r hr hallows => ?_) h
  cases hg : s.groups groupName with
  | some g =>
    obtain rfl : g = r := by simpa [hg] using hr
    exact ⟨g, hg, hallows⟩
  | none =>
    rw [hg] at hr
    cases hr
    simp at hallows

theorem hasPermission_of_dropGroup
    (h : (dropGroup saving groupName s).2.hasPermission v p = true) :
    s.hasPermission v p = true := by
  rw [dropGroup_state] at h
  cases hg : s.groups groupName with
  | none => simpa only [hg] using h
  | some g =>
    simp only [hg, hasPermission_iff, Option.map_eq_some_iff] at h
    obtain ⟨_, ⟨u, hu, rfl⟩, hown | ⟨name, hname, hallows⟩⟩ := h
    · exact hasPermission_iff.mpr ⟨u, hu, .inl hown⟩
    · have hne : name ≠ groupName := Finset.ne_of_mem_erase hname
      have hgroup : GroupAllows (setGroup groupName none s) name p := hallows
      rw [groupAllows_setGroup, if_neg hne] at hgroup
      exact hasPermission_iff.mpr ⟨u, hu, .inr ⟨name, Finset.mem_of_mem_erase hname, hgroup⟩⟩

theorem hasPermission_of_revokeFromUser
    (h : (revokeFromUser saving userId perm s).2.hasPermission v p = true) :
    s.hasPermission v p = true := by
  rw [revokeFromUser, hasPermission_updateUser] at h
  split_ifs at h with hv
  · obtain ⟨u, hu, hown | hgroup⟩ := h
    · exact hasPermission_iff.mpr ⟨u, hv ▸ hu, .inl (allows_of_and hown)⟩
    · exact hasPermission_iff.mpr ⟨u, hv ▸ hu, .inr hgroup⟩
  · exact h

theorem hasPermission_of_revokeFromGroup
    (h : (revokeFromGroup saving groupName perm s).2.hasPermission v p = true) :
    s.hasPermission v p = true := by
  rw [revokeFromGroup, updateGroup_state] at h
  refine hasPermission_of_setGroup (fun r hr hallows => ?_) h
  obtain ⟨g, hg, rfl⟩ := Option.map_eq_some_iff.mp hr
  exact ⟨g, hg, allows_of_and hallows⟩

theorem hasPermission_grantToUser : (grantToUser saving userId perm s).2.hasPermission v p = true ↔
      s.hasPermission v p = true ∨
        v = userId ∧ s.userExists userId = true ∧ allows perm.mask p = true := by
  rw [grantToUser, hasPermission_updateUser, userExists, Option.isSome_iff_exists]
  split_ifs with hv
  · simp only [Holds, allows_or, hasPermission_iff, hv]
    aesop
  · simp [hv]

theorem hasPermission_grantToGroup :
    (grantToGroup saving groupName perm s).2.hasPermission v p = true ↔
      s.hasPermission v p = true ∨
        (∃ u, s.users v = some u ∧ groupName ∈ u.groups) ∧
          (s.groups groupName).isSome = true ∧ allows perm.mask p = true := by
  rw [grantToGroup, updateGroup_state]
  cases hg : s.groups groupName with
  | none => simp [setGroup_self hg]
  | some g =>
    simp only [hasPermission_iff, Option.map_some, Option.isSome_some, true_and]
    have hgroup : ∀ name, GroupAllows (setGroup groupName
        (some { g with permissions := g.permissions ||| perm.mask }) s) name p ↔
        GroupAllows s name p ∨ name = groupName ∧ allows perm.mask p = true := by
      intro name
      rw [groupAllows_setGroup]
      split_ifs with heq
      · simp [GroupAllows, heq, hg, allows_or]
      · simp [heq]
    have husers : (setGroup groupName
        (some { g with permissions := g.permissions ||| perm.mask }) s).users = s.users := rfl
    simp only [husers, Holds, hgroup]
    aesop

theorem hasPermission_addUserToGroup :
    (addUserToGroup saving userId groupName s).2.hasPermission v p = true ↔
      s.hasPermission v p = true ∨
        v = userId ∧ s.userExists userId = true ∧ GroupAllows s groupName p := by
  rw [addUserToGroup_state, userExists]
  cases hu : s.users userId with
  | none => simp
  | some u =>
    cases hg : s.groups groupName with
    | none => simp [GroupAllows, hg]
    | some g =>
      rw [hasPermission_setUser]
      split_ifs with hv
      · simp only [hv, hasPermission_iff, Holds, hu]
        aesop
      · simp [hv]

end Changes

/-! ## Password hashes -/

def hashOf (s : RbacStore) (userId : ByteString) : Option ByteString :=
  (s.users userId).map UserRecord.passwordHash

theorem checkPassword_eq (userId password : ByteString) (s : RbacStore) :
    checkPassword crypto userId password s =
      match s.hashOf userId with
      | none => false
      | some hash => Password.verifyPassword crypto password hash := by
  rw [checkPassword, hashOf]
  cases s.users userId <;> rfl

theorem hashOf_setUser (userId v : ByteString) (s : RbacStore) :
    (setUser userId u s).hashOf v =
      if v = userId then u.map UserRecord.passwordHash else s.hashOf v := by
  split_ifs with h
  · simp [hashOf, setUser, h]
  · simp [hashOf, setUser, Function.update_of_ne h]

theorem hashOf_updateUser {f : UserRecord → UserRecord}
    (hf : ∀ u, (f u).passwordHash = u.passwordHash) (userId v : ByteString) (s : RbacStore) :
    (updateUser saving userId f s).2.hashOf v = s.hashOf v := by
  rw [updateUser_state, hashOf_setUser]
  split_ifs with hv
  · simp [hashOf, hv, Function.comp_def, hf]
  · rfl

theorem hashOf_updateGroup (f : GroupRecord → GroupRecord) (groupName v : ByteString)
    (s : RbacStore) : (updateGroup saving groupName f s).2.hashOf v = s.hashOf v := by
  rw [updateGroup_state]
  rfl

theorem hashOf_grantToUser (userId v : ByteString) (perm : Permission) (s : RbacStore) :
    (grantToUser saving userId perm s).2.hashOf v = s.hashOf v := by
  apply hashOf_updateUser
  intro u
  rfl

theorem hashOf_revokeFromUser (userId v : ByteString) (perm : Permission) (s : RbacStore) :
    (revokeFromUser saving userId perm s).2.hashOf v = s.hashOf v := by
  apply hashOf_updateUser
  intro u
  rfl

theorem hashOf_createGroup (groupName v : ByteString) (s : RbacStore) :
    (createGroup saving groupName s).2.hashOf v = s.hashOf v := by
  rw [createGroup_state]
  rfl

theorem hashOf_dropGroup (groupName v : ByteString) (s : RbacStore) :
    (dropGroup saving groupName s).2.hashOf v = s.hashOf v := by
  rw [dropGroup_state]
  cases s.groups groupName with
  | none => rfl
  | some g => cases hv : s.users v <;> simp [hashOf, hv, leaveGroup]

theorem hashOf_addUserToGroup (userId groupName v : ByteString) (s : RbacStore) :
    (addUserToGroup saving userId groupName s).2.hashOf v = s.hashOf v := by
  rw [addUserToGroup_state]
  cases hu : s.users userId with
  | none => rfl
  | some u =>
    cases s.groups groupName with
    | none => rfl
    | some g =>
      rw [hashOf_setUser]
      split_ifs with hv
      · simp [hashOf, hv, hu]
      · rfl

theorem hashOf_createUser (salt userId password v : ByteString) (s : RbacStore) :
    (createUser crypto saving salt userId password s).2.hashOf v =
      if v = userId then
        some ((s.hashOf userId).getD (Password.saltedHash crypto salt password))
      else s.hashOf v := by
  rw [createUser_state, hashOf_setUser]
  unfold hashOf
  cases s.users userId <;> rfl

theorem hashOf_dropUser (userId v : ByteString) (s : RbacStore) :
    (dropUser saving userId s).2.hashOf v = if v = userId then none else s.hashOf v := by
  rw [dropUser_state, hashOf_setUser]
  rfl

end RbacStore

end CourseDb

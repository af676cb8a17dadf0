import CourseDb.Common.Value
import CourseDb.Lib.Conformance
import CourseDb.Lib.Fallible

/-! # The lock manager

Row locks of transactions, shared or exclusive, with a second map from each
transaction to its rows. Every call runs under one mutex, so a run is a
sequence of calls. The two maps mirror each other in every state of a run.
-/

namespace CourseDb

open Fallible (read_bind bind_ok bind_apply fail)
open Function (update forall_update_iff)

inductive IsolationLevel where
  | kReadCommitted
  | kRepeatableRead
  | kSerializable
deriving DecidableEq, Repr

inductive TransactionState where
  | kActive
  | kCommitted
  | kAborted
deriving DecidableEq, Repr

structure Transaction where
  id : UInt64
  isolation : IsolationLevel := .kReadCommitted
  state : TransactionState := .kActive
deriving DecidableEq

structure LockEntry where
  sharedHolders : Finset UInt64 := ∅
  exclusiveHolder : Option UInt64 := none
deriving DecidableEq

structure LockManager where
  lockTable : UInt64 → Option LockEntry
  txnLocks : UInt64 → Option (Finset UInt64)

namespace LockManager

abbrev Action (α : Type) := Fallible Status LockManager α

def empty : LockManager := { lockTable := fun _ => none, txnLocks := fun _ => none }

def transactionError (message : String) : Status := ⟨.kTransactionError, message⟩

def canAcquireLocks (txn : Transaction) : Bool := txn.state = .kActive

def canUnlock (txn : Transaction) : Bool :=
  txn.state = .kActive || txn.state = .kCommitted || txn.state = .kAborted

def rememberTxnLockOwnership (txn rid : UInt64) : Action Unit :=
  Fallible.modify fun m =>
    { m with txnLocks :=
        update m.txnLocks txn (some (insert rid ((m.txnLocks txn).getD ∅))) }

/-- The rows of a transaction without one; an empty set is dropped. -/
def forgetRow (rid : UInt64) : Option (Finset UInt64) → Option (Finset UInt64)
  | none => none
  | some held => if held.erase rid = ∅ then none else some (held.erase rid)

def forgetTxnLockOwnership (txn rid : UInt64) : Action Unit :=
  Fallible.modify fun m =>
    { m with txnLocks := update m.txnLocks txn (forgetRow rid (m.txnLocks txn)) }

def setEntry (rid : UInt64) (entry : Option LockEntry) : Action Unit :=
  Fallible.modify fun m => { m with lockTable := update m.lockTable rid entry }

/-- `lock_table_[rid]`, which creates an entry where there is none. -/
def entryAt (rid : UInt64) : Action LockEntry := do
  let m ← Fallible.read
  let entry := (m.lockTable rid).getD {}
  setEntry rid (some entry)
  return entry

def lockShared (txn : Transaction) (rid : UInt64) : Action Unit := do
  if !canAcquireLocks txn then
    fail (transactionError "transaction is not active")
  else
    let entry ← entryAt rid
    if entry.exclusiveHolder.isSome ∧ entry.exclusiveHolder ≠ some txn.id then
      fail (transactionError "shared lock conflict")
    else
      setEntry rid (some { entry with sharedHolders := insert txn.id entry.sharedHolders })
      rememberTxnLockOwnership txn.id rid

def lockExclusive (txn : Transaction) (rid : UInt64) : Action Unit := do
  if !canAcquireLocks txn then
    fail (transactionError "transaction is not active")
  else
    let entry ← entryAt rid
    if entry.exclusiveHolder = some txn.id then
      rememberTxnLockOwnership txn.id rid
    else if entry.exclusiveHolder.isSome ∧ entry.exclusiveHolder ≠ some txn.id then
      fail (transactionError "exclusive lock conflict")
    else if entry.sharedHolders = ∅ then
      setEntry rid (some { entry with exclusiveHolder := some txn.id })
      rememberTxnLockOwnership txn.id rid
    else if entry.sharedHolders.card = 1 ∧ txn.id ∈ entry.sharedHolders then
      setEntry rid (some { sharedHolders := entry.sharedHolders.erase txn.id,
                           exclusiveHolder := some txn.id })
      rememberTxnLockOwnership txn.id rid
    else
      fail (transactionError "cannot upgrade shared lock to exclusive")

/-- An entry after a transaction has let go of it; an empty entry is dropped. -/
def releaseEntry (txn : UInt64) : Option LockEntry → Option LockEntry
  | none => none
  | some entry =>
    let rest : LockEntry :=
      { sharedHolders := entry.sharedHolders.erase txn,
        exclusiveHolder :=
          if entry.exclusiveHolder = some txn then none else entry.exclusiveHolder }
    if rest.exclusiveHolder = none ∧ rest.sharedHolders = ∅ then none else some rest

def releaseRow (txn rid : UInt64) : Action Unit :=
  Fallible.modify fun m =>
    { m with lockTable := update m.lockTable rid (releaseEntry txn (m.lockTable rid)) }

def unlock (txn : Transaction) (rid : UInt64) : Action Unit := do
  if !canUnlock txn then
    fail (transactionError "transaction state cannot unlock")
  else
    releaseRow txn.id rid
    forgetTxnLockOwnership txn.id rid

/-- The loop of `UnlockAll`. -/
def releaseRows (txn : UInt64) : List UInt64 → Action Unit
  | [] => return ()
  | rid :: rids => do
    releaseRow txn rid
    releaseRows txn rids

/-- The rows are visited in ascending order here; any other order gives the same table. -/
def unlockAll (txn : Transaction) : Action Unit := do
  if !canUnlock txn then
    fail (transactionError "transaction state cannot unlock")
  else
    let m ← Fallible.read
    match m.txnLocks txn.id with
    | none => return ()
    | some held =>
      releaseRows txn.id held.sort
      Fallible.modify fun m => { m with txnLocks := update m.txnLocks txn.id none }

section Holders

def SharedBy (entry : Option LockEntry) (txn : UInt64) : Prop :=
  ∃ e, entry = some e ∧ txn ∈ e.sharedHolders

def ExclusiveBy (entry : Option LockEntry) (txn : UInt64) : Prop :=
  ∃ e, entry = some e ∧ e.exclusiveHolder = some txn

/-- The transaction holds the row of this entry in one of the two modes. -/
def HeldBy (entry : Option LockEntry) (txn : UInt64) : Prop :=
  SharedBy entry txn ∨ ExclusiveBy entry txn

/-- The exclusive holder shares the entry with nobody else. -/
def Exclusive (entry : Option LockEntry) : Prop :=
  ∀ e t, entry = some e → e.exclusiveHolder = some t → ∀ u ∈ e.sharedHolders, u = t

def Occupied (entry : Option LockEntry) : Prop :=
  ∀ e, entry = some e → e.sharedHolders ≠ ∅ ∨ e.exclusiveHolder ≠ none

variable {entry : Option LockEntry} {e : LockEntry} {t u rid : UInt64}

theorem heldBy_some : HeldBy (some e) t ↔ t ∈ e.sharedHolders ∨ e.exclusiveHolder = some t := by
  simp [HeldBy, SharedBy, ExclusiveBy]

theorem heldBy_none : ¬ HeldBy none t := by
  simp [HeldBy, SharedBy, ExclusiveBy]

theorem occupied_of_heldBy (h : HeldBy (some e) t) : Occupied (some e) := by
  intro e' he'
  cases he'
  rcases heldBy_some.mp h with h | h
  · exact .inl (Finset.ne_empty_of_mem h)
  · exact .inr (by simp [h])

/-- What is left of an entry once `t` has let go of it. -/
theorem releaseEntry_cases (e : LockEntry) (t : UInt64) :
    releaseEntry t (some e) = none ∧ e.sharedHolders.erase t = ∅ ∧
        (e.exclusiveHolder = none ∨ e.exclusiveHolder = some t) ∨
      ∃ rest, releaseEntry t (some e) = some rest ∧ Occupied (some rest) ∧
        rest.sharedHolders = e.sharedHolders.erase t ∧
        ∀ u, rest.exclusiveHolder = some u ↔ u ≠ t ∧ e.exclusiveHolder = some u := by
  unfold releaseEntry
  by_cases hx : e.exclusiveHolder = some t
  · by_cases hs : e.sharedHolders.erase t = ∅
    · exact .inl ⟨by simp [hx, hs], hs, .inr hx⟩
    · refine .inr ⟨⟨e.sharedHolders.erase t, none⟩, by simp [hx, hs], ?_, rfl, ?_⟩
      · intro e' he'
        cases he'
        exact .inl hs
      · intro u
        simp only [reduceCtorEq, hx, Option.some.injEq, false_iff, not_and]
        exact fun hu heq => hu heq.symm
  · by_cases hs : e.sharedHolders.erase t = ∅ ∧ e.exclusiveHolder = none
    · exact .inl ⟨by simp [hs], hs.1, .inl hs.2⟩
    · refine .inr ⟨⟨e.sharedHolders.erase t, e.exclusiveHolder⟩, ?_, ?_, rfl, ?_⟩
      · simp only [hx, if_false]
        rw [if_neg (fun h => hs h.symm)]
      · intro e' he'
        cases he'
        by_contra hcon
        push Not at hcon
        exact hs hcon
      · intro u
        constructor
        · intro hu
          exact ⟨fun heq => hx (heq ▸ hu), hu⟩
        · exact fun h => h.2

theorem sharedBy_releaseEntry : SharedBy (releaseEntry t entry) u ↔ u ≠ t ∧ SharedBy entry u := by
  cases entry with
  | none => simp [releaseEntry, SharedBy]
  | some e =>
    have hmem : u ∈ e.sharedHolders.erase t ↔ u ≠ t ∧ u ∈ e.sharedHolders := Finset.mem_erase
    rcases releaseEntry_cases e t with ⟨hnone, hs, -⟩ | ⟨rest, hsome, -, hs, -⟩
    · rw [hs] at hmem
      simpa [hnone, SharedBy] using hmem
    · rw [← hs] at hmem
      simpa [hsome, SharedBy] using hmem

theorem exclusiveBy_releaseEntry :
    ExclusiveBy (releaseEntry t entry) u ↔ u ≠ t ∧ ExclusiveBy entry u := by
  cases entry with
  | none => simp [releaseEntry, ExclusiveBy]
  | some e =>
    rcases releaseEntry_cases e t with ⟨hnone, -, hx⟩ | ⟨rest, hsome, -, -, hx⟩
    · rcases hx with hx | hx
      · simp [hnone, ExclusiveBy, hx]
      · simpa [hnone, ExclusiveBy, hx] using Ne.symm
    · simpa [hsome, ExclusiveBy] using hx u

theorem heldBy_releaseEntry : HeldBy (releaseEntry t entry) u ↔ u ≠ t ∧ HeldBy entry u := by
  rw [HeldBy, sharedBy_releaseEntry, exclusiveBy_releaseEntry, HeldBy]
  tauto

theorem occupied_releaseEntry : Occupied (releaseEntry t entry) := by
  cases entry with
  | none => exact fun e he => by cases he
  | some e =>
    rcases releaseEntry_cases e t with ⟨hnone, -⟩ | ⟨rest, hsome, hocc, -⟩
    · rw [hnone]
      exact fun e he => by cases he
    · rw [hsome]
      exact hocc

theorem exclusive_releaseEntry (h : Exclusive entry) : Exclusive (releaseEntry t entry) := by
  cases entry with
  | none => exact fun e t he => by cases he
  | some e =>
    rcases releaseEntry_cases e t with ⟨hnone, -⟩ | ⟨rest, hsome, -, hs, hx⟩
    · rw [hnone]
      exact fun e t he => by cases he
    · intro e' v he' hv u hu
      rw [hsome] at he'
      cases he'
      rw [hs] at hu
      exact h e v rfl ((hx v).mp hv).2 u (Finset.mem_of_mem_erase hu)

end Holders

/-- The rows that `txn_locks_` lists for a transaction. -/
def rowsOf (m : LockManager) (txn : UInt64) : Finset UInt64 := (m.txnLocks txn).getD ∅

/-- What the two maps of a lock manager have to say about each other. -/
structure Safe (m : LockManager) : Prop where
  /-- An exclusive holder shares the row with nobody else. -/
  exclusive : ∀ rid, Exclusive (m.lockTable rid)
  mirror : ∀ txn rid, rid ∈ m.rowsOf txn ↔ HeldBy (m.lockTable rid) txn
  entry_nonempty : ∀ rid, Occupied (m.lockTable rid)
  rows_nonempty : ∀ txn held, m.txnLocks txn = some held → held ≠ ∅

theorem empty_safe : empty.Safe where
  exclusive _ _ _ h := by cases h
  mirror txn rid := by simp [rowsOf, empty, heldBy_none]
  entry_nonempty _ _ h := by cases h
  rows_nonempty _ _ h := by cases h

section Steps

variable {m m' : LockManager} {txn : Transaction} {rid t : UInt64} {e : Status} {entry : LockEntry}
  {u r : UInt64} {held : Option (Finset UInt64)}

/-- A row has gone to a transaction: its entry is `entry`, and both maps know it. -/
def granted (m : LockManager) (txn rid : UInt64) (entry : LockEntry) : LockManager where
  lockTable := update m.lockTable rid (some entry)
  txnLocks := update m.txnLocks txn (some (insert rid (m.rowsOf txn)))

/-- A call that touches the rows of one transaction only keeps the maps safe. -/
theorem Safe.change (hm : m.Safe) {table : UInt64 → Option LockEntry}
    (hexcl : ∀ r, Exclusive (table r)) (hocc : ∀ r, Occupied (table r))
    (hself : ∀ r, r ∈ held.getD ∅ ↔ HeldBy (table r) t)
    (hothers : ∀ u, u ≠ t → ∀ r, HeldBy (table r) u ↔ HeldBy (m.lockTable r) u)
    (hrows : ∀ rows, held = some rows → rows ≠ ∅) :
    Safe ⟨table, update m.txnLocks t held⟩ where
  exclusive := hexcl
  mirror u r := by
    by_cases hu : u = t
    · subst hu
      simpa [rowsOf] using hself r
    · simpa [rowsOf, hu] using (hm.mirror u r).trans (hothers u hu r).symm
  entry_nonempty := hocc
  rows_nonempty := (forall_update_iff m.txnLocks fun _ held => ∀ rows,
    held = some rows → rows ≠ ∅).mpr ⟨hrows, fun u _ => hm.rows_nonempty u⟩

theorem heldBy_granted (u : UInt64)
    (hothers : u ≠ t → (HeldBy (some entry) u ↔ HeldBy (m.lockTable rid) u)) (hu : u ≠ t) :
    HeldBy ((m.granted t rid entry).lockTable r) u ↔ HeldBy (m.lockTable r) u := by
  by_cases hr : r = rid
  · subst hr
    simpa [granted] using hothers hu
  · simp [granted, hr]

theorem Safe.granted (hm : m.Safe) (hexcl : Exclusive (some entry))
    (hheld : HeldBy (some entry) t)
    (hothers : ∀ u, u ≠ t → (HeldBy (some entry) u ↔ HeldBy (m.lockTable rid) u)) :
    (m.granted t rid entry).Safe := by
  apply hm.change
  · exact (forall_update_iff m.lockTable fun _ => Exclusive).mpr
      ⟨hexcl, fun r _ => hm.exclusive r⟩
  · exact (forall_update_iff m.lockTable fun _ => Occupied).mpr
      ⟨occupied_of_heldBy hheld, fun r _ => hm.entry_nonempty r⟩
  · intro r
    by_cases hr : r = rid
    · subst hr
      simpa using hheld
    · simpa [hr] using hm.mirror t r
  · exact fun u hu r => heldBy_granted u (hothers u) hu
  · simp

theorem update_entry_self (h : m.lockTable rid = some entry) :
    ({ m with lockTable := update m.lockTable rid (some entry) } : LockManager) = m := by
  rw [← h, Function.update_eq_self]

/-- A call of a transaction that is not active is refused first. -/
theorem refused_of_inactive {action : Action Unit} {Conflict : Prop}
    (hact : ¬ canAcquireLocks txn = true)
    (h : action m = (.error (transactionError "transaction is not active"), m)) :
    ∃ e, action m = (.error e, m) ∧ (txn.state = .kActive → Conflict) :=
  ⟨_, h, fun hstate => absurd (by simp [canAcquireLocks, hstate]) hact⟩

/-- The new entry of the row and the row's new owner are noted together. -/
theorem setEntry_remember (m : LockManager) (t : UInt64) (before : Option LockEntry) :
    (do setEntry rid (some entry); rememberTxnLockOwnership t rid : Action Unit)
        { m with lockTable := update m.lockTable rid before } =
      (.ok (), m.granted t rid entry) := by
  simp [bind_apply, setEntry, rememberTxnLockOwnership, granted, rowsOf]

theorem entryAt_eq (m : LockManager) (rid : UInt64) :
    entryAt rid m = (.ok ((m.lockTable rid).getD {}), { m with
      lockTable := update m.lockTable rid (some ((m.lockTable rid).getD {})) }) :=
  rfl

/-- A shared lock is refused without a trace, or granted beside other shared locks. -/
theorem lockShared_cases (m : LockManager) (txn : Transaction) (rid : UInt64) :
    (∃ e, lockShared txn rid m = (.error e, m) ∧
        (txn.state = .kActive → ∃ u, u ≠ txn.id ∧ ExclusiveBy (m.lockTable rid) u)) ∨
      ∃ entry : LockEntry, entry = (m.lockTable rid).getD {} ∧
        (entry.exclusiveHolder = none ∨ entry.exclusiveHolder = some txn.id) ∧
        lockShared txn rid m = (.ok (), m.granted txn.id rid
          { entry with sharedHolders := insert txn.id entry.sharedHolders }) := by
  unfold lockShared
  by_cases hact : canAcquireLocks txn = true
  · simp only [hact, Bool.not_true, Bool.false_eq_true, if_false]
    rw [bind_ok (entryAt_eq m rid)]
    split_ifs with hcond
    · left
      obtain ⟨owner, howner⟩ := Option.isSome_iff_exists.mp hcond.1
      cases hentry : m.lockTable rid with
      | none => simp [hentry] at howner
      | some entry =>
        rw [hentry, Option.getD_some] at hcond howner
        refine ⟨_, congrArg (Prod.mk _) (update_entry_self hentry), fun _ => ?_⟩
        exact ⟨owner, fun heq => hcond.2 (heq ▸ howner), entry, rfl, howner⟩
    · refine .inr ⟨_, rfl, ?_, setEntry_remember m _ _⟩
      rw [Option.isSome_iff_ne_none] at hcond
      tauto
  · exact .inl (refused_of_inactive hact (by simp [hact]))

/-- An exclusive lock is refused without a trace, or it goes to the only holder there is. -/
theorem lockExclusive_cases (m : LockManager) (txn : Transaction) (rid : UInt64) :
    (∃ e, lockExclusive txn rid m = (.error e, m) ∧
        (txn.state = .kActive → ∃ u, u ≠ txn.id ∧ HeldBy (m.lockTable rid) u)) ∨
      ∃ entry : LockEntry, entry.exclusiveHolder = some txn.id ∧
        (m.lockTable rid = some entry ∨ entry.sharedHolders = ∅ ∧
          ∀ u, HeldBy (m.lockTable rid) u → u = txn.id) ∧
        lockExclusive txn rid m = (.ok (), m.granted txn.id rid entry) := by
  unfold lockExclusive
  by_cases hact : canAcquireLocks txn = true
  · simp only [hact, Bool.not_true, Bool.false_eq_true, if_false]
    rw [bind_ok (entryAt_eq m rid)]
    cases hentry : m.lockTable rid with
    | none =>
      right
      refine ⟨⟨∅, some txn.id⟩, rfl, .inr ⟨rfl, fun u hu => absurd hu heldBy_none⟩, ?_⟩
      exact setEntry_remember m _ _
    | some entry =>
      obtain ⟨shared, exclusive⟩ := entry
      rw [Option.getD_some]
      cases exclusive with
      | some owner =>
        by_cases howner : owner = txn.id
        · right
          subst howner
          refine ⟨⟨shared, some txn.id⟩, rfl, .inl rfl, ?_⟩
          simp [rememberTxnLockOwnership, granted, rowsOf]
        · left
          refine ⟨transactionError "exclusive lock conflict", ?_, fun _ => ?_⟩
          · simp [howner, update_entry_self hentry]
          · exact ⟨owner, howner, heldBy_some.mpr (.inr rfl)⟩
      | none =>
        by_cases hempty : shared = ∅
        · right
          subst hempty
          refine ⟨⟨∅, some txn.id⟩, rfl, .inr ⟨rfl, by simp [heldBy_some]⟩, ?_⟩
          simpa using setEntry_remember m _ _
        · by_cases honly : shared = {txn.id}
          · right
            subst honly
            refine ⟨⟨∅, some txn.id⟩, rfl, .inr ⟨rfl, by simp [heldBy_some]⟩, ?_⟩
            simpa using setEntry_remember m _ _
          · left
            have hcond : ¬ (shared.card = 1 ∧ txn.id ∈ shared) := by
              rintro ⟨hcard, hmem⟩
              obtain ⟨u, rfl⟩ := Finset.card_eq_one.mp hcard
              rw [Finset.mem_singleton.mp hmem] at honly
              exact honly rfl
            refine ⟨transactionError "cannot upgrade shared lock to exclusive", ?_, fun _ => ?_⟩
            · simp [hempty, hcond, update_entry_self hentry]
            · by_contra hall
              push Not at hall
              apply honly
              rw [Finset.eq_singleton_iff_nonempty_unique_mem]
              refine ⟨Finset.nonempty_iff_ne_empty.mpr hempty, fun u hu => ?_⟩
              by_contra hne
              exact hall u hne (heldBy_some.mpr (.inl hu))
  · exact .inl (refused_of_inactive hact (by simp [hact]))

theorem canUnlock_eq (txn : Transaction) : canUnlock txn = true := by
  cases h : txn.state <;> simp [canUnlock, h]

theorem unlock_eq (m : LockManager) (txn : Transaction) (rid : UInt64) :
    unlock txn rid m =
      (.ok (), { lockTable := update m.lockTable rid
                   (releaseEntry txn.id (m.lockTable rid)),
                 txnLocks := update m.txnLocks txn.id
                   (forgetRow rid (m.txnLocks txn.id)) }) := by
  simp [unlock, canUnlock_eq, bind_apply, releaseRow, forgetTxnLockOwnership]

/-- Each row is visited once, and only its own entry matters. -/
theorem releaseRows_eq (t : UInt64) (rids : List UInt64) (hnodup : rids.Nodup) (m : LockManager) :
    releaseRows t rids m =
      (.ok (), { m with lockTable := fun rid =>
        if rid ∈ rids then releaseEntry t (m.lockTable rid) else m.lockTable rid }) := by
  induction rids generalizing m with
  | nil => simp [releaseRows]
  | cons rid rids ih =>
    obtain ⟨hnot, hnodup⟩ := List.nodup_cons.mp hnodup
    have hrow : releaseRow t rid m = (.ok (), { m with
        lockTable := update m.lockTable rid (releaseEntry t (m.lockTable rid)) }) := rfl
    rw [releaseRows, bind_ok hrow, ih hnodup]
    simp only [Prod.mk.injEq, true_and, LockManager.mk.injEq, and_true]
    funext r
    by_cases hr : r = rid
    · subst hr
      simp [hnot]
    · simp [hr]

/-- `UnlockAll` releases the rows that the second map lists. -/
theorem unlockAll_eq (m : LockManager) (txn : Transaction) :
    unlockAll txn m =
      (.ok (), { lockTable := fun rid =>
                   if rid ∈ m.rowsOf txn.id then releaseEntry txn.id (m.lockTable rid)
                   else m.lockTable rid,
                 txnLocks := update m.txnLocks txn.id none }) := by
  unfold unlockAll
  simp only [canUnlock_eq, Bool.not_true, Bool.false_eq_true, if_false]
  rw [read_bind]
  cases hlocks : m.txnLocks txn.id with
  | none =>
    have hsame : update m.txnLocks txn.id none = m.txnLocks := by
      rw [← hlocks, Function.update_eq_self]
    simp [rowsOf, hlocks, hsame]
  | some held =>
    dsimp only
    rw [bind_ok (releaseRows_eq txn.id _ (held.sort_nodup _) m)]
    simp [rowsOf, hlocks]

theorem mem_getD_forgetRow (held : Option (Finset UInt64)) :
    r ∈ (forgetRow rid held).getD ∅ ↔ r ≠ rid ∧ r ∈ held.getD ∅ := by
  cases held with
  | none => simp [forgetRow]
  | some held =>
    have hmem : r ∈ held.erase rid ↔ r ≠ rid ∧ r ∈ held := Finset.mem_erase
    by_cases h : held.erase rid = ∅
    · rw [h] at hmem
      simpa [forgetRow, h] using hmem
    · simp [forgetRow, h]

theorem forgetRow_nonempty {rest : Finset UInt64} (h : forgetRow rid held = some rest) :
    rest ≠ ∅ := by
  cases held with
  | none => cases h
  | some held =>
    rw [forgetRow] at h
    split_ifs at h with hempty
    cases h
    exact hempty

theorem Safe.unlock (hm : m.Safe) : (unlock txn rid m).2.Safe := by
  rw [unlock_eq]
  apply hm.change
  · exact (forall_update_iff m.lockTable fun _ => Exclusive).mpr
      ⟨exclusive_releaseEntry (hm.exclusive rid), fun r _ => hm.exclusive r⟩
  · exact (forall_update_iff m.lockTable fun _ => Occupied).mpr
      ⟨occupied_releaseEntry, fun r _ => hm.entry_nonempty r⟩
  · intro r
    by_cases hr : r = rid
    · simp [hr, mem_getD_forgetRow, heldBy_releaseEntry]
    · simpa [hr, mem_getD_forgetRow, rowsOf] using hm.mirror txn.id r
  · intro u hu r
    by_cases hr : r = rid
    · simp [hr, hu, heldBy_releaseEntry]
    · simp [hr]
  · exact fun rows => forgetRow_nonempty

section

variable (hm : m.Safe) (txn : Transaction)
include hm

theorem unlockAll_lockTable (r : UInt64) :
    (unlockAll txn m).2.lockTable r = m.lockTable r ∧ ¬ HeldBy (m.lockTable r) txn.id ∨
      (unlockAll txn m).2.lockTable r = releaseEntry txn.id (m.lockTable r) := by
  rw [unlockAll_eq]
  by_cases hr : r ∈ m.rowsOf txn.id
  · exact .inr (by simp [hr])
  · exact .inl ⟨by simp [hr], fun h => hr ((hm.mirror _ _).mpr h)⟩

theorem sharedBy_unlockAll (r u : UInt64) :
    SharedBy ((unlockAll txn m).2.lockTable r) u ↔ u ≠ txn.id ∧ SharedBy (m.lockTable r) u := by
  rcases unlockAll_lockTable hm txn r with ⟨hsame, hfree⟩ | hreleased
  · rw [hsame]
    exact ⟨fun h => ⟨fun heq => hfree (heq ▸ .inl h), h⟩, fun h => h.2⟩
  · rw [hreleased, sharedBy_releaseEntry]

theorem exclusiveBy_unlockAll (r u : UInt64) :
    ExclusiveBy ((unlockAll txn m).2.lockTable r) u ↔
      u ≠ txn.id ∧ ExclusiveBy (m.lockTable r) u := by
  rcases unlockAll_lockTable hm txn r with ⟨hsame, hfree⟩ | hreleased
  · rw [hsame]
    exact ⟨fun h => ⟨fun heq => hfree (heq ▸ .inr h), h⟩, fun h => h.2⟩
  · rw [hreleased, exclusiveBy_releaseEntry]

/-- After `UnlockAll` a transaction holds nothing, and nobody else has lost anything. -/
theorem heldBy_unlockAll (r u : UInt64) :
    HeldBy ((unlockAll txn m).2.lockTable r) u ↔ u ≠ txn.id ∧ HeldBy (m.lockTable r) u := by
  rw [HeldBy, sharedBy_unlockAll hm, exclusiveBy_unlockAll hm, HeldBy]
  tauto

end

theorem Safe.unlockAll (hm : m.Safe) : (unlockAll txn m).2.Safe := by
  have hheld := heldBy_unlockAll hm txn
  rw [unlockAll_eq] at hheld ⊢
  apply hm.change
  · intro r
    split_ifs
    · exact exclusive_releaseEntry (hm.exclusive r)
    · exact hm.exclusive r
  · intro r
    split_ifs
    · exact occupied_releaseEntry
    · exact hm.entry_nonempty r
  · simp [hheld]
  · simp +contextual [hheld]
  · simp

theorem heldBy_getD (entry : Option LockEntry) (u : UInt64) :
    HeldBy (some (entry.getD {})) u ↔ HeldBy entry u := by
  cases entry with
  | none => simp [heldBy_some, heldBy_none]
  | some e => rfl

theorem exclusive_getD {entry : Option LockEntry} (h : Exclusive entry) :
    Exclusive (some (entry.getD {})) := by
  cases entry with
  | none =>
    intro e t he ht
    cases he
    cases ht
  | some e => exact h

theorem sharedEntry_others (hu : u ≠ t) :
    HeldBy (some { entry with sharedHolders := insert t entry.sharedHolders }) u ↔
      HeldBy (some entry) u := by
  simp [heldBy_some, hu]

theorem exclusiveEntry_others (hx : entry.exclusiveHolder = some t)
    (hold : m.lockTable rid = some entry ∨ entry.sharedHolders = ∅ ∧ ∀ u, HeldBy (m.lockTable rid) u → u = t)
    (hu : u ≠ t) : HeldBy (some entry) u ↔ HeldBy (m.lockTable rid) u := by
  rcases hold with hold | ⟨hempty, honly⟩
  · rw [hold]
  · have hentry : ¬ HeldBy (some entry) u := by
      rw [heldBy_some, hempty, hx]
      simp [Ne.symm hu]
    exact iff_of_false hentry fun h => hu (honly u h)

theorem Safe.lockShared (hm : m.Safe) : (lockShared txn rid m).2.Safe := by
  rcases lockShared_cases m txn rid with ⟨e, h, -⟩ | ⟨entry, rfl, hx, h⟩
  · rw [h]
    exact hm
  · rw [h]
    apply hm.granted
    · -- A shared lock beside an exclusive one belongs to the same transaction.
      intro e' v he' hv u hu
      cases he'
      rcases hx with hx | hx
      · simp [hx] at hv
      · rcases Finset.mem_insert.mp hu with hu | hu
        · rw [hu]
          exact Option.some.inj (hx.symm.trans hv)
        · exact exclusive_getD (hm.exclusive rid) _ v rfl hv u hu
    · exact heldBy_some.mpr (.inl (Finset.mem_insert_self _ _))
    · intro u hu
      rw [sharedEntry_others hu, heldBy_getD]

theorem Safe.lockExclusive (hm : m.Safe) : (lockExclusive txn rid m).2.Safe := by
  rcases lockExclusive_cases m txn rid with ⟨e, h, -⟩ | ⟨entry, hx, hold, h⟩
  · rw [h]
    exact hm
  · rw [h]
    apply hm.granted
    · rcases hold with hold | ⟨hempty, -⟩
      · exact hold ▸ hm.exclusive rid
      · intro e' v he' _ u hu
        cases he'
        simp [hempty] at hu
    · exact heldBy_some.mpr (.inr hx)
    · exact fun u hu => exclusiveEntry_others hx hold hu

theorem heldBy_lockShared (hu : u ≠ txn.id) :
    HeldBy ((LockManager.lockShared txn rid m).2.lockTable r) u ↔ HeldBy (m.lockTable r) u := by
  rcases lockShared_cases m txn rid with ⟨e, h, -⟩ | ⟨entry, rfl, -, h⟩
  · rw [h]
  · rw [h]
    apply heldBy_granted u _ hu
    intro hu
    rw [sharedEntry_others hu, heldBy_getD]

theorem heldBy_lockExclusive (hu : u ≠ txn.id) :
    HeldBy ((LockManager.lockExclusive txn rid m).2.lockTable r) u ↔ HeldBy (m.lockTable r) u := by
  rcases lockExclusive_cases m txn rid with ⟨e, h, -⟩ | ⟨entry, hx, hold, h⟩
  · rw [h]
  · rw [h]
    exact heldBy_granted u (exclusiveEntry_others hx hold) hu

theorem lockShared_active (h : LockManager.lockShared txn rid m = (.ok (), m')) :
    txn.state = .kActive := by
  by_contra hstate
  simp [LockManager.lockShared, canAcquireLocks, hstate] at h

theorem lockExclusive_active (h : LockManager.lockExclusive txn rid m = (.ok (), m')) :
    txn.state = .kActive := by
  by_contra hstate
  simp [LockManager.lockExclusive, canAcquireLocks, hstate] at h

theorem lockShared_ok (hact : txn.state = .kActive)
    (h : ∀ u, u ≠ txn.id → ¬ ExclusiveBy (m.lockTable rid) u) :
    (LockManager.lockShared txn rid m).1 = .ok () := by
  rcases lockShared_cases m txn rid with ⟨e, -, hconflict⟩ | ⟨entry, -, -, heq⟩
  · obtain ⟨u, hu, hx⟩ := hconflict hact
    exact absurd hx (h u hu)
  · rw [heq]

theorem lockExclusive_ok (hact : txn.state = .kActive)
    (h : ∀ u, u ≠ txn.id → ¬ HeldBy (m.lockTable rid) u) :
    (LockManager.lockExclusive txn rid m).1 = .ok () := by
  rcases lockExclusive_cases m txn rid with ⟨e, -, hconflict⟩ | ⟨entry, -, -, heq⟩
  · obtain ⟨u, hu, hheld⟩ := hconflict hact
    exact absurd hheld (h u hu)
  · rw [heq]

end Steps

inductive Call where
  | lockShared (txn : Transaction) (rid : UInt64)
  | lockExclusive (txn : Transaction) (rid : UInt64)
  | unlock (txn : Transaction) (rid : UInt64)
  | unlockAll (txn : Transaction)

def step (m : LockManager) : Call → Except Status Unit × LockManager
  | .lockShared txn rid => lockShared txn rid m
  | .lockExclusive txn rid => lockExclusive txn rid m
  | .unlock txn rid => unlock txn rid m
  | .unlockAll txn => unlockAll txn m

theorem Safe.step {m : LockManager} (hm : m.Safe) (call : Call) : (m.step call).2.Safe := by
  cases call with
  | lockShared txn rid => exact hm.lockShared
  | lockExclusive txn rid => exact hm.lockExclusive
  | unlock txn rid => exact hm.unlock
  | unlockAll txn => exact hm.unlockAll

theorem step_refused {m : LockManager} {call : Call} {e : Status}
    (h : (m.step call).1 = .error e) : (m.step call).2 = m := by
  cases call with
  | lockShared txn rid =>
    rcases lockShared_cases m txn rid with ⟨e', h', -⟩ | ⟨entry, -, -, h'⟩
    · exact congrArg Prod.snd h'
    · cases h.symm.trans (congrArg Prod.fst h')
  | lockExclusive txn rid =>
    rcases lockExclusive_cases m txn rid with ⟨e', h', -⟩ | ⟨entry, -, -, h'⟩
    · exact congrArg Prod.snd h'
    · cases h.symm.trans (congrArg Prod.fst h')
  | unlock txn rid => cases h.symm.trans (congrArg Prod.fst (unlock_eq m txn rid))
  | unlockAll txn => cases h.symm.trans (congrArg Prod.fst (unlockAll_eq m txn))

/-- Every run of calls leaves the two maps safe, and a refused call changes neither. -/
theorem lockManager_safe (calls : List Call) :
    (finalState step empty calls).Safe ∧
      ∀ call e, ((finalState step empty calls).step call).1 = .error e →
        ((finalState step empty calls).step call).2 = finalState step empty calls :=
  ⟨finalState_invariant (fun _ call hm => hm.step call) calls empty_safe,
    fun _ _ h => step_refused h⟩

end LockManager

end CourseDb

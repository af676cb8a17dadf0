import CourseDb.Transaction.LockManager

/-! # The transaction manager

Transactions are handed out as values, and every call passes one back, so that
a caller may also keep an outdated copy. Committing or rolling back releases
the locks of the transaction through the attached lock manager.
-/

namespace CourseDb

structure TransactionManager where
  nextTxnId : UInt64
  lockManager : LockManager

namespace TransactionManager

abbrev Action (α : Type) := Fallible Status TransactionManager α

def new : TransactionManager := { nextTxnId := 1, lockManager := .empty }

/-- `Begin`; the counter is a `std::uint64_t`. -/
def begin (isolation : IsolationLevel) : Action Transaction := do
  let m ← Fallible.read
  Fallible.modify fun m => { m with nextTxnId := m.nextTxnId + 1 }
  return { id := m.nextTxnId, isolation, state := .kActive }

def onLocks {α : Type} (x : LockManager.Action α) : Action α :=
  Fallible.zoom lockManager (fun locks m => { m with lockManager := locks }) x

/-- The transaction as the call leaves it, with the status of the call. -/
def finishTransaction (txn : Transaction) (target : TransactionState)
    (m : TransactionManager) : (Except Status Unit × Transaction) × TransactionManager :=
  if txn.state ≠ .kActive then
    ((.error ⟨.kTransactionError, "transaction is not active"⟩, txn), m)
  else
    let (status, m') := onLocks (LockManager.unlockAll { txn with state := target }) m
    ((status, { txn with state := target }), m')

def commit (txn : Transaction) := finishTransaction txn .kCommitted

def rollback (txn : Transaction) := finishTransaction txn .kAborted

/-- The calls of a transaction manager and of its lock manager. -/
inductive Call where
  | begin (isolation : IsolationLevel)
  | commit (txn : Transaction)
  | rollback (txn : Transaction)
  | lock (call : LockManager.Call)

/-- What a call returns; finishing a transaction also changes the object it is passed. -/
inductive Reply where
  | began (txn : Except Status Transaction)
  | finished (status : Except Status Unit) (txn : Transaction)
  | locked (status : Except Status Unit)

def step (m : TransactionManager) : Call → Reply × TransactionManager
  | .begin isolation => (begin isolation m).map .began id
  | .commit txn => (commit txn m).map (fun r => .finished r.1 r.2) id
  | .rollback txn => (rollback txn m).map (fun r => .finished r.1 r.2) id
  | .lock call => (onLocks (fun locks => locks.step call) m).map .locked id

section Finish

open LockManager

variable {m : TransactionManager} {txn : Transaction} {target : TransactionState} {t : UInt64}

theorem finishTransaction_active (h : txn.state = .kActive) :
    finishTransaction txn target m =
      ((.ok (), { txn with state := target }),
        { m with lockManager := (unlockAll { txn with state := target } m.lockManager).2 }) := by
  have hstatus : (unlockAll { txn with state := target } m.lockManager).1 = .ok () := by
    rw [unlockAll_eq]
  simp [finishTransaction, h, onLocks, Fallible.zoom, hstatus]

theorem finishTransaction_finished (h : txn.state ≠ .kActive) :
    (finishTransaction txn target m).2 = m := by
  simp [finishTransaction, h]

theorem finishTransaction_safe (hm : m.lockManager.Safe) :
    (finishTransaction txn target m).2.lockManager.Safe := by
  by_cases h : txn.state = .kActive
  · rw [finishTransaction_active h]
    exact hm.unlockAll
  · rw [finishTransaction_finished h]
    exact hm

theorem step_safe (hm : m.lockManager.Safe) (call : Call) : (m.step call).2.lockManager.Safe := by
  cases call with
  | begin isolation => exact hm
  | commit txn => exact finishTransaction_safe hm
  | rollback txn => exact finishTransaction_safe hm
  | lock call => exact hm.step call

/-- The lock calls that come with the id of `txn` come with a finished transaction. -/
def Retired (txn : UInt64) (_ : TransactionManager) : Call → Prop
  | .lock (.lockShared t _) => t.id = txn → t.state ≠ .kActive
  | .lock (.lockExclusive t _) => t.id = txn → t.state ≠ .kActive
  | _ => True

/-- The transaction holds no row. -/
def Free (m : TransactionManager) (txn : UInt64) : Prop :=
  ∀ rid, ¬ HeldBy (m.lockManager.lockTable rid) txn

section

variable (hfree : m.Free t) (hm : m.lockManager.Safe)
include hfree hm

theorem Free.lock {call : LockManager.Call} (hret : Retired t m (.lock call)) :
    (m.step (.lock call)).2.Free t := by
  intro rid
  cases call with
  | lockShared txn r =>
    by_cases hid : t = txn.id
    · rcases lockShared_cases m.lockManager txn r with ⟨e, h, -⟩ | ⟨entry, -, -, h⟩
      · change ¬ HeldBy ((lockShared txn r m.lockManager).2.lockTable rid) t
        rw [h]
        exact hfree rid
      · exact absurd (lockShared_active h) (hret hid.symm)
    · exact fun h => hfree rid ((heldBy_lockShared hid).mp h)
  | lockExclusive txn r =>
    by_cases hid : t = txn.id
    · rcases lockExclusive_cases m.lockManager txn r with ⟨e, h, -⟩ | ⟨entry, -, -, h⟩
      · change ¬ HeldBy ((lockExclusive txn r m.lockManager).2.lockTable rid) t
        rw [h]
        exact hfree rid
      · exact absurd (lockExclusive_active h) (hret hid.symm)
    · exact fun h => hfree rid ((heldBy_lockExclusive hid).mp h)
  | unlock txn r =>
    intro h
    change HeldBy ((unlock txn r m.lockManager).2.lockTable rid) t at h
    rw [unlock_eq] at h
    by_cases hr : rid = r
    · subst hr
      exact hfree rid (heldBy_releaseEntry.mp (by simpa using h)).2
    · exact hfree rid (by simpa [hr] using h)
  | unlockAll txn => exact fun h => hfree rid ((heldBy_unlockAll hm txn rid t).mp h).2

theorem Free.finish : (finishTransaction txn target m).2.Free t := by
  by_cases h : txn.state = .kActive
  · rw [finishTransaction_active h]
    exact fun rid hheld => hfree rid ((heldBy_unlockAll hm _ rid t).mp hheld).2
  · rw [finishTransaction_finished h]
    exact hfree

/-- A transaction without locks stays without them while it is retired. -/
theorem Free.step {call : Call} (hret : Retired t m call) : (m.step call).2.Free t := by
  cases call with
  | begin isolation => exact hfree
  | commit txn => exact hfree.finish hm
  | rollback txn => exact hfree.finish hm
  | lock call => exact hfree.lock hm hret

end

/-- What `Commit` and `Rollback` promise about a transaction and its locks. -/
structure Finished (m m' : TransactionManager) (txn : Transaction) : Prop where
  released : m'.Free txn.id
  shared_kept : ∀ rid u, u ≠ txn.id →
    (SharedBy (m'.lockManager.lockTable rid) u ↔ SharedBy (m.lockManager.lockTable rid) u)
  exclusive_kept : ∀ rid u, u ≠ txn.id →
    (ExclusiveBy (m'.lockManager.lockTable rid) u ↔ ExclusiveBy (m.lockManager.lockTable rid) u)
  /-- A shared request that only `txn` stood in the way of is granted now. -/
  shared_granted : ∀ other rid, other.state = .kActive →
    (∀ u, u ≠ other.id → ExclusiveBy (m.lockManager.lockTable rid) u → u = txn.id) →
    (lockShared other rid m'.lockManager).1 = .ok ()
  exclusive_granted : ∀ other rid, other.state = .kActive →
    (∀ u, u ≠ other.id → HeldBy (m.lockManager.lockTable rid) u → u = txn.id) →
    (lockExclusive other rid m'.lockManager).1 = .ok ()
  /-- No later run in which `txn` is retired gives it a lock again. -/
  stays_free : ∀ later, Along TransactionManager.step (Retired txn.id) m' later →
    (finalState TransactionManager.step m' later).Free txn.id

theorem unlockAll_finished (hm : m.lockManager.Safe) {t : Transaction} (hid : t.id = txn.id) :
    Finished m { m with lockManager := (unlockAll t m.lockManager).2 } txn := by
  have hfree : Free { m with lockManager := (unlockAll t m.lockManager).2 } txn.id :=
    fun rid h => ((heldBy_unlockAll hm t rid _).mp h).1 hid.symm
  constructor
  · exact hfree
  · intro rid u hu
    rw [← hid] at hu
    simp [sharedBy_unlockAll hm, hu]
  · intro rid u hu
    rw [← hid] at hu
    simp [exclusiveBy_unlockAll hm, hu]
  · intro other rid hact honly
    apply lockShared_ok hact
    intro u hu hx
    obtain ⟨hne, hx⟩ := (exclusiveBy_unlockAll hm t rid u).mp hx
    exact hne ((honly u hu hx).trans hid.symm)
  · intro other rid hact honly
    apply lockExclusive_ok hact
    intro u hu hheld
    obtain ⟨hne, hheld⟩ := (heldBy_unlockAll hm t rid u).mp hheld
    exact hne ((honly u hu hheld).trans hid.symm)
  · intro later hlater
    have hinv : Free _ txn.id ∧ LockManager.Safe _ :=
      hlater.invariant (I := fun m : TransactionManager => m.Free txn.id ∧ m.lockManager.Safe)
        (fun s call hs hret => ⟨hs.1.step hs.2 hret, step_safe hs.2 call⟩) ⟨hfree, hm.unlockAll⟩
    exact hinv.1

/-- Finishing an active transaction releases all its locks and nothing else. -/
theorem transactionManager_finish_releases (calls : List Call) (txn : Transaction)
    (hact : txn.state = .kActive) :
    (∃ m', commit txn (finalState step new calls) =
        ((.ok (), { txn with state := .kCommitted }), m') ∧
      Finished (finalState step new calls) m' txn) ∧
    ∃ m', rollback txn (finalState step new calls) =
        ((.ok (), { txn with state := .kAborted }), m') ∧
      Finished (finalState step new calls) m' txn := by
  have hsafe : (finalState step new calls).lockManager.Safe :=
    finalState_invariant (I := fun m : TransactionManager => m.lockManager.Safe)
      (fun _ call hm => step_safe hm call)
      calls empty_safe
  exact ⟨⟨_, finishTransaction_active hact, unlockAll_finished hsafe rfl⟩,
    ⟨_, finishTransaction_active hact, unlockAll_finished hsafe rfl⟩⟩

theorem transactionManager_finish_releases_first :
    ∃ m', commit { id := 1 } (finalState step new [.begin .kSerializable,
        .lock (.lockExclusive { id := 1 } 7), .lock (.lockShared { id := 2 } 8)]) =
        ((.ok (), { id := 1, state := .kCommitted }), m') ∧
      Finished (finalState step new [.begin .kSerializable,
        .lock (.lockExclusive { id := 1 } 7), .lock (.lockShared { id := 2 } 8)]) m' { id := 1 } :=
  (transactionManager_finish_releases _ { id := 1 } rfl).1

end Finish

end TransactionManager

end CourseDb

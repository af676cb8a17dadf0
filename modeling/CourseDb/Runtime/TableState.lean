import CourseDb.Lib.UndoLog
import CourseDb.Lib.UniqueIndex
import CourseDb.Versioning.Revert

/-! # One table by itself

The rows, the indexes and the version log of a single table, without files and
caches, and the calls of the engine as they act on them. When a row appears,
changes or disappears, each index moves the key of the row, and it refuses this
only for a key that it does not accept or that another row has.
-/

namespace CourseDb

structure TableState where
  heap : Heap
  indexes : ByteString → KeyIndex
  records : List VersionRecord
  /-- The readings of the clock that are still to come. -/
  clock : ℕ → ℤ

namespace TableState

variable {α : Type}

abbrev Action (α : Type) := Fallible Status TableState α

def onHeap (x : Heap.Action α) : Action α := fun s => ((x s.heap).1, { s with heap := (x s.heap).2 })

def onIndex (name : ByteString) (x : KeyIndex.Action α) : Action α := fun s =>
  ((x (s.indexes name)).1,
    { s with indexes := Function.update s.indexes name (x (s.indexes name)).2 })

open StorageNodeEngine (extractIndexKey)

section Indexes

def addKey (key : Value) (rid : ℕ) : KeyIndex.Action Unit :=
  if key.isNull then return () else KeyIndex.insert key rid

def dropKey (key : Value) : KeyIndex.Action Unit :=
  if key.isNull then return () else KeyIndex.delete key

def moveKey (oldKey newKey : Value) (rid : ℕ) : KeyIndex.Action Unit := do
  if oldKey = newKey then
    return ()
  else
    dropKey oldKey
    addKey newKey rid

def eachIndex (f : IndexDescriptor → KeyIndex.Action Unit) : List IndexDescriptor → Action Unit
  | [] => return ()
  | index :: indexes => do
    onIndex index.name (f index)
    eachIndex f indexes

variable (descriptor : TableDescriptor)

def insertIntoIndexes (tuple : Tuple) (rid : ℕ) : Action Unit :=
  eachIndex (fun index => do
    let key ← Fallible.ofExcept (extractIndexKey descriptor index tuple)
    addKey key rid) descriptor.indexes

def deleteFromIndexes (tuple : Tuple) : Action Unit :=
  eachIndex (fun index => do
    let key ← Fallible.ofExcept (extractIndexKey descriptor index tuple)
    dropKey key) descriptor.indexes

def updateIndexes (before after : Tuple) (rid : ℕ) : Action Unit :=
  eachIndex (fun index => do
    let oldKey ← Fallible.ofExcept (extractIndexKey descriptor index before)
    let newKey ← Fallible.ofExcept (extractIndexKey descriptor index after)
    moveKey oldKey newKey rid) descriptor.indexes

end Indexes

section Rows

variable (descriptor : TableDescriptor) (tableName : ByteString)

/-- Append a record with the time of the clock. -/
def appendVersion (rid : ℕ) (op : VersionOp) (before after : Tuple) : Action Unit := fun s =>
  let r := VersionLog.append { timestampMs := s.clock 0, tableName, rid, op, before, after } s.records
  (r.1, { s with records := r.2, clock := fun n => s.clock (n + 1) })

def scanTable : Action (List Row) := onHeap TableStorage.scan

def insertInternal (tuple : Tuple) (writeVersionRecord : Bool) : Action ℕ := do
  let rid ← onHeap (TableStorage.insert descriptor.schema tuple)
  let inserted ← onHeap (TableStorage.get rid)
  insertIntoIndexes descriptor inserted.tuple rid
  if writeVersionRecord then
    appendVersion tableName rid .kInsert [] inserted.tuple
    return rid
  else
    return rid

def updateInternal (rid : ℕ) (tuple : Tuple) (writeVersionRecord : Bool) : Action Unit := do
  let before ← onHeap (TableStorage.get rid)
  onHeap (TableStorage.update descriptor.schema rid tuple)
  let after ← onHeap (TableStorage.get rid)
  updateIndexes descriptor before.tuple after.tuple rid
  if writeVersionRecord then
    appendVersion tableName rid .kUpdate before.tuple after.tuple
  else
    return ()

def deleteInternal (rid : ℕ) (writeVersionRecord : Bool) : Action Unit := do
  let before ← onHeap (TableStorage.get rid)
  deleteFromIndexes descriptor before.tuple
  onHeap (TableStorage.delete rid)
  if writeVersionRecord then
    appendVersion tableName rid .kDelete before.tuple []
  else
    return ()

def ensureMissing (rid : ℕ) : Action Unit := fun s =>
  match onHeap (TableStorage.get rid) s with
  | (.ok _, s) => (.error ⟨.kAlreadyExists, "Row already exists"⟩, s)
  | (.error status, s) => if status.code ≠ .kNotFound then (.error status, s) else (.ok (), s)

def restoreInternal (rid : ℕ) (tuple : Tuple) (writeVersionRecord : Bool) : Action Unit := do
  ensureMissing rid
  onHeap (TableStorage.restore descriptor.schema rid tuple)
  let restored ← onHeap (TableStorage.get rid)
  insertIntoIndexes descriptor restored.tuple rid
  if writeVersionRecord then
    appendVersion tableName rid .kInsert [] restored.tuple
  else
    return ()

def applyInverseRecord (record : VersionRecord) : Action Unit :=
  match record.op with
  | .kInsert => deleteInternal descriptor tableName record.rid false
  | .kDelete => restoreInternal descriptor tableName record.rid record.before false
  | .kUpdate => updateInternal descriptor tableName record.rid record.before false

def applyInverseRecords : List VersionRecord → Action Unit :=
  undoAll (applyInverseRecord descriptor tableName)

def readAll : Action (List VersionRecord) := fun s => ((VersionLog.readAll s.records).1, s)

def revertTableToTimestamp (timestampMs : ℤ) : Action Unit := do
  let records ← readAll
  applyInverseRecords descriptor tableName
    (RevertService.collectRollbackRecords tableName records timestampMs).reverse

end Rows

end TableState

end CourseDb

namespace CourseDb.TableState

open Fallible (read_bind bind_ok bind_eq_ok ofExcept_bind)
open StorageNodeEngine (extractIndexKey)
open Function (update update_of_ne update_self)

variable {desc : TableDescriptor} {index : IndexDescriptor} {rid : ℕ} {key : Value}
  {tuple : Tuple} {before after : Option Tuple} {rows : ℕ → Option Tuple} {x x' : KeyIndex}

def keyOf (descriptor : TableDescriptor) (index : IndexDescriptor) (tuple : Tuple) :
    Option Value :=
  match extractIndexKey descriptor index tuple with
  | .ok key => if key.isNull then none else some key
  | .error _ => none

theorem keyOf_eq (h : extractIndexKey desc index tuple = .ok key) :
    keyOf desc index tuple = if key.isNull then none else some key := by
  rw [keyOf, h]

/-- An index holds the keys of the rows, and it accepts them all. -/
structure Keyed (descriptor : TableDescriptor) (index : IndexDescriptor)
    (rows : ℕ → Option Tuple) (x : KeyIndex) : Prop where
  indexes : Indexes (keyOf descriptor index) rows x.keys
  accepted : ∀ {k r}, x.keys k = some r → KeyIndex.validateKeyType x.cfg k = .ok ()

theorem insert_eq_ok (h : KeyIndex.insert key rid x = (.ok (), x')) :
    KeyIndex.validateKeyType x.cfg key = .ok () ∧ x.keys key = none ∧
      x' = { x with keys := update x.keys key (some rid) } := by
  unfold KeyIndex.insert at h
  rw [read_bind] at h
  rcases hvalid : KeyIndex.validateKeyType x.cfg key with status | ⟨⟩
  · rw [hvalid] at h
    cases h
  · rw [ofExcept_bind hvalid] at h
    cases hkey : x.keys key with
    | some r =>
      rw [hkey] at h
      cases h
    | none =>
      rw [hkey] at h
      cases h
      exact ⟨rfl, rfl, rfl⟩

theorem insert_of_free (hvalid : KeyIndex.validateKeyType x.cfg key = .ok ())
    (hfree : x.keys key = none) :
    KeyIndex.insert key rid x =
      (.ok (), { x with keys := update x.keys key (some rid) }) := by
  unfold KeyIndex.insert
  rw [read_bind, hvalid,
    ofExcept_bind rfl, hfree]
  rfl

theorem delete_eq_ok (h : KeyIndex.delete key x = (.ok (), x')) :
    x' = { x with keys := update x.keys key none } := by
  rcases KeyIndex.delete_cases key x with ⟨status, herror⟩ | ⟨-, hok⟩
  · rw [herror] at h
    cases h
  · rw [hok] at h
    cases h
    rfl

theorem delete_of_found (hvalid : KeyIndex.validateKeyType x.cfg key = .ok ())
    (hfound : x.keys key = some rid) :
    KeyIndex.delete key x = (.ok (), { x with keys := update x.keys key none }) := by
  unfold KeyIndex.delete
  rw [read_bind, hvalid,
    ofExcept_bind rfl, hfound]
  rfl

/-- The index can be made to hold the key of the row as it is afterwards. -/
def Accepts (descriptor : TableDescriptor) (index : IndexDescriptor)
    (before after : Option Tuple) (x : KeyIndex) : Prop :=
  ∀ k, after.bind (keyOf descriptor index) = some k →
    before.bind (keyOf descriptor index) ≠ some k →
    KeyIndex.validateKeyType x.cfg k = .ok () ∧ x.keys k = none

/-- What one index does when the row with an id changes from `before` to `after`. -/
structure Moves (descriptor : TableDescriptor) (index : IndexDescriptor) (rid : ℕ)
    (before after : Option Tuple) (f : KeyIndex.Action Unit) : Prop where
  keyed : ∀ {rows x x'}, f x = (.ok (), x') → Keyed descriptor index rows x → rows rid = before →
    Keyed descriptor index (update rows rid after) x' ∧ x'.cfg = x.cfg
  succeeds : ∀ {rows x}, Keyed descriptor index rows x → rows rid = before →
    Accepts descriptor index before after x → (f x).1 = .ok ()

namespace Keyed

variable {k : Value}

section

variable (h : Keyed desc index rows x)
include h

theorem keep (hkey : after.bind (keyOf desc index) = (rows rid).bind (keyOf desc index)) :
    Keyed desc index (update rows rid after) x :=
  ⟨h.indexes.keep hkey, h.accepted⟩

theorem add (hbefore : (rows rid).bind (keyOf desc index) = none)
    (hafter : after.bind (keyOf desc index) = some k)
    (hvalid : KeyIndex.validateKeyType x.cfg k = .ok ()) (hfree : x.keys k = none) :
    Keyed desc index (update rows rid after)
      { x with keys := update x.keys k (some rid) } := by
  refine ⟨h.indexes.add hbefore hafter hfree, ?_⟩
  intro k' r hfound
  by_cases hk : k' = k
  · rw [hk]
    exact hvalid
  · change update x.keys k (some rid) k' = some r at hfound
    rw [update_of_ne hk] at hfound
    exact h.accepted hfound

theorem drop (hbefore : (rows rid).bind (keyOf desc index) = some k)
    (hafter : after.bind (keyOf desc index) = none) :
    Keyed desc index (update rows rid after)
      { x with keys := update x.keys k none } := by
  refine ⟨h.indexes.drop hbefore hafter, ?_⟩
  intro k' r hfound
  by_cases hk : k' = k
  · subst hk
    change update x.keys k' none k' = some r at hfound
    rw [update_self] at hfound
    cases hfound
  · change update x.keys k none k' = some r at hfound
    rw [update_of_ne hk] at hfound
    exact h.accepted hfound

theorem found (hrow : (rows rid).bind (keyOf desc index) = some k) : x.keys k = some rid :=
  h.indexes.iff_bind.mpr hrow

end

theorem free_of_removed (h' : Keyed desc index (update rows rid none) x')
    (h : Keyed desc index rows x) (hfree : x.keys k = none) : x'.keys k = none := by
  rw [Option.eq_none_iff_forall_not_mem]
  intro r hr
  have hfound := h'.indexes.iff_bind.mp hr
  by_cases hrid : r = rid
  · rw [hrid, update_self] at hfound
    cases hfound
  · rw [update_of_ne hrid] at hfound
    rw [h.found hfound] at hfree
    cases hfree

end Keyed

section Moves

variable {t t' : Tuple} {key' : Value}

theorem addKey_of_null (hnull : key.isNull = true) : addKey key rid x = (.ok (), x) := by
  unfold addKey
  rw [if_pos hnull]
  rfl

theorem addKey_of_value (hnull : key.isNull = false) : addKey key rid x = KeyIndex.insert key rid x := by
  unfold addKey
  rw [if_neg (by simp [hnull])]

theorem dropKey_of_null (hnull : key.isNull = true) : dropKey key x = (.ok (), x) := by
  unfold dropKey
  rw [if_pos hnull]
  rfl

theorem dropKey_of_value (hnull : key.isNull = false) : dropKey key x = KeyIndex.delete key x := by
  unfold dropKey
  rw [if_neg (by simp [hnull])]

section

variable (h : extractIndexKey desc index t = .ok key)
include h

theorem keyOf_null (hnull : key.isNull = true) : keyOf desc index t = none := by
  rw [keyOf_eq h, if_pos hnull]

theorem keyOf_value (hnull : key.isNull = false) : keyOf desc index t = some key := by
  rw [keyOf_eq h, if_neg (by simp [hnull])]

theorem eq_of_keyOf (h' : extractIndexKey desc index t' = .ok key')
    (hsame : keyOf desc index t = keyOf desc index t') (hsome : keyOf desc index t ≠ none) :
    key = key' := by
  rcases hnull : key.isNull with _ | _
  · rw [keyOf_value h hnull] at hsame
    rcases hnull' : key'.isNull with _ | _
    · rw [keyOf_value h' hnull'] at hsame
      exact Option.some.inj hsame
    · rw [keyOf_null h' hnull'] at hsame
      cases hsame
  · exact absurd (keyOf_null h hnull) hsome

end

/-- A row without a key before gets the key of the row afterwards. -/
theorem moves_addKey (hbefore : before.bind (keyOf desc index) = none)
    (h : extractIndexKey desc index t = .ok key) :
    Moves desc index rid before (some t) (addKey key rid) := by
  rcases hnull : key.isNull with _ | _
  · have hkey : (some t).bind (keyOf desc index) = some key := keyOf_value h hnull
    constructor
    · intro rows x x' hadd hkeyed hrow
      rw [addKey_of_value hnull] at hadd
      obtain ⟨hvalid, hfree, rfl⟩ := insert_eq_ok hadd
      rw [← hrow] at hbefore
      exact ⟨hkeyed.add hbefore hkey hvalid hfree, rfl⟩
    · intro rows x hkeyed hrow haccepts
      obtain ⟨hvalid, hfree⟩ := haccepts key hkey (by rw [hbefore]; simp)
      rw [addKey_of_value hnull, insert_of_free hvalid hfree]
  · have hkey : (some t).bind (keyOf desc index) = none := keyOf_null h hnull
    constructor
    · intro rows x x' hadd hkeyed hrow
      rw [addKey_of_null hnull] at hadd
      cases hadd
      exact ⟨hkeyed.keep (by rw [hkey, hrow, hbefore]), rfl⟩
    · intro rows x hkeyed hrow haccepts
      rw [addKey_of_null hnull]

theorem moves_dropKey (h : extractIndexKey desc index t = .ok key)
    (hafter : after.bind (keyOf desc index) = none) :
    Moves desc index rid (some t) after (dropKey key) := by
  rcases hnull : key.isNull with _ | _
  · have hkey : keyOf desc index t = some key := keyOf_value h hnull
    constructor
    · intro rows x x' hdrop hkeyed hrow
      rw [dropKey_of_value hnull] at hdrop
      rw [delete_eq_ok hdrop]
      exact ⟨hkeyed.drop (by rw [hrow]; exact hkey) hafter, rfl⟩
    · intro rows x hkeyed hrow haccepts
      have hfound : x.keys key = some rid := hkeyed.found (by rw [hrow]; exact hkey)
      rw [dropKey_of_value hnull, delete_of_found (hkeyed.accepted hfound) hfound]
  · have hkey : keyOf desc index t = none := keyOf_null h hnull
    constructor
    · intro rows x x' hdrop hkeyed hrow
      rw [dropKey_of_null hnull] at hdrop
      cases hdrop
      exact ⟨hkeyed.keep (by rw [hafter, hrow]; exact hkey.symm), rfl⟩
    · intro rows x hkeyed hrow haccepts
      rw [dropKey_of_null hnull]

theorem moves_moveKey (h : extractIndexKey desc index t = .ok key)
    (h' : extractIndexKey desc index t' = .ok key') :
    Moves desc index rid (some t) (some t') (moveKey key key' rid) := by
  have hdrop : Moves desc index rid (some t) none (dropKey key) := moves_dropKey h rfl
  have hadd : Moves desc index rid none (some t') (addKey key' rid) := moves_addKey rfl h'
  by_cases hsame : key = key'
  · subst hsame
    have hkey : keyOf desc index t' = keyOf desc index t := by
      rw [keyOf_eq h, keyOf_eq h']
    have hskip : ∀ x, moveKey key key rid x = (.ok (), x) := by
      intro x
      unfold moveKey
      rw [if_pos rfl]
      rfl
    constructor
    · intro rows x x' hmove hkeyed hrow
      rw [hskip] at hmove
      cases hmove
      exact ⟨hkeyed.keep (by rw [hrow]; exact hkey), rfl⟩
    · intro rows x hkeyed hrow haccepts
      rw [hskip]
  · have hmoves : ∀ x, moveKey key key' rid x = (dropKey key >>= fun _ => addKey key' rid) x := by
      intro x
      unfold moveKey
      rw [if_neg hsame]
    constructor
    · intro rows x x' hmove hkeyed hrow
      rw [hmoves] at hmove
      obtain ⟨⟨⟩, x₁, hfirst, hsecond⟩ := bind_eq_ok.mp hmove
      obtain ⟨hdropped, hcfg⟩ := hdrop.keyed hfirst hkeyed hrow
      obtain ⟨hadded, hcfg'⟩ := hadd.keyed hsecond hdropped (update_self rid none rows)
      rw [Function.update_idem] at hadded
      exact ⟨hadded, hcfg'.trans hcfg⟩
    · intro rows x hkeyed hrow haccepts
      have hfirst := hdrop.succeeds hkeyed hrow fun k hk => by cases hk
      obtain ⟨x₁, hx₁⟩ : ∃ x₁, dropKey key x = (.ok (), x₁) := ⟨_, Prod.ext hfirst rfl⟩
      obtain ⟨hdropped, hcfg⟩ := hdrop.keyed hx₁ hkeyed hrow
      rw [hmoves, bind_ok hx₁]
      refine hadd.succeeds hdropped (update_self rid none rows) ?_
      intro k hk _
      have hother : keyOf desc index t ≠ some k := fun hold =>
        hsame (eq_of_keyOf h h' (hold.trans hk.symm) (by rw [hold]; simp))
      obtain ⟨hvalid, hfree⟩ := haccepts k hk hother
      exact ⟨hcfg ▸ hvalid, hdropped.free_of_removed hkeyed hfree⟩

end Moves

/-! ## All indexes of a table -/

section EachIndex

variable {f : IndexDescriptor → KeyIndex.Action Unit} {indexes : List IndexDescriptor}
  {s s' : TableState}

/-- Nothing but the indexes with these names has changed. -/
structure OnlyIndexes (names : List ByteString) (s s' : TableState) : Prop where
  heap_eq : s'.heap = s.heap
  records_eq : s'.records = s.records
  clock_eq : s'.clock = s.clock
  others : ∀ name, name ∉ names → s'.indexes name = s.indexes name

theorem eachIndex_ok (hnames : (indexes.map IndexDescriptor.name).Nodup)
    (h : eachIndex f indexes s = (.ok (), s')) :
    OnlyIndexes (indexes.map IndexDescriptor.name) s s' ∧ ∀ index ∈ indexes,
      f index (s.indexes index.name) = (.ok (), s'.indexes index.name) := by
  induction indexes generalizing s with
  | nil =>
    cases h
    exact ⟨⟨rfl, rfl, rfl, fun _ _ => rfl⟩, by simp⟩
  | cons index indexes ih =>
    rw [List.map_cons, List.nodup_cons] at hnames
    unfold eachIndex at h
    obtain ⟨⟨⟩, s₁, hfirst, hrest⟩ := bind_eq_ok.mp h
    obtain ⟨hresult, rfl⟩ := Prod.mk.inj hfirst
    obtain ⟨hothers, hall⟩ := ih hnames.2 hrest
    have hself : s'.indexes index.name = (f index (s.indexes index.name)).2 :=
      (hothers.others index.name hnames.1).trans (update_self _ _ _)
    constructor
    · refine ⟨hothers.heap_eq, hothers.records_eq, hothers.clock_eq, fun name hname => ?_⟩
      rw [List.map_cons, List.mem_cons, not_or] at hname
      exact (hothers.others name hname.2).trans (update_of_ne hname.1 _ _)
    · intro index' hmem
      rcases List.mem_cons.mp hmem with rfl | hmem
      · exact Prod.ext hresult hself.symm
      · have hne : index'.name ≠ index.name := fun heq =>
          hnames.1 (heq ▸ List.mem_map_of_mem hmem)
        have hsame : (update s.indexes index.name (f index (s.indexes index.name)).2)
            index'.name = s.indexes index'.name := update_of_ne hne _ _
        have hindex := hall index' hmem
        change f index' (update s.indexes index.name _ index'.name) = _ at hindex
        rwa [hsame] at hindex

theorem eachIndex_succeeds (hnames : (indexes.map IndexDescriptor.name).Nodup)
    (h : ∀ index ∈ indexes, (f index (s.indexes index.name)).1 = .ok ()) :
    (eachIndex f indexes s).1 = .ok () := by
  induction indexes generalizing s with
  | nil => rfl
  | cons index indexes ih =>
    rw [List.map_cons, List.nodup_cons] at hnames
    have hfirst : onIndex index.name (f index) s = (.ok (), (onIndex index.name (f index) s).2) :=
      Prod.ext (h index List.mem_cons_self) rfl
    unfold eachIndex
    rw [bind_ok hfirst]
    apply ih hnames.2
    intro index' hmem
    have hne : index'.name ≠ index.name := fun heq => hnames.1 (heq ▸ List.mem_map_of_mem hmem)
    have hsame : (onIndex index.name (f index) s).2.indexes index'.name = s.indexes index'.name :=
      update_of_ne hne _ _
    rw [hsame]
    exact h index' (List.mem_cons_of_mem _ hmem)

end EachIndex

end CourseDb.TableState

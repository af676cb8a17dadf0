import CourseDb.Runtime.RowCalls
import CourseDb.Storage.RowIds

/-! # What a call on a row does to the tables

A successful call stores one table anew, as the table storage says; every other
table keeps its rows, and the table stays open for the next call.
-/

namespace CourseDb.StorageNodeEngine

open Fallible (Within bind_ok bind_eq_ok)

variable {α : Type} {db tbl : ByteString} {table : OpenTableState}
  {e e' e₁ : StorageNodeEngine} {heap heap' : Heap}

/-- No table is stored anew, and what is open stays open. -/
structure KeepsHeaps (e e' : StorageNodeEngine) : Prop where
  heaps : ∀ {file heap}, e.disk.files file = some (.table heap) →
    e'.disk.files file = some (.table heap)
  rows : SameRows e e'
  started_eq : e'.started = e.started
  tables : ∀ {k t}, e.openedTables k = some t → e'.openedTables k = some t

instance : Std.Refl KeepsHeaps where
  refl e := ⟨id, refl e, rfl, id⟩

instance : IsTrans StorageNodeEngine KeepsHeaps where
  trans _ _ _ h h' :=
    ⟨fun hf => h'.heaps (h.heaps hf), Trans.trans h.rows h'.rows,
      h'.started_eq.trans h.started_eq, fun hk => h'.tables (h.tables hk)⟩

theorem Opens.keepsHeaps (h : Opens e e') : KeepsHeaps e e' :=
  ⟨h.disk.files, h.keeps.sameRows, h.started_eq, h.tables⟩

theorem KeepsHeaps.write {file : ℕ} {content content' : FileContent}
    (hfile : e.disk.files file = some content) (hno : ∀ heap, content ≠ .table heap)
    (hrows : Disk.liveRowsIn (some content') = Disk.liveRowsIn (some content)) :
    KeepsHeaps e { e with disk := e.disk.write file content' } where
  heaps {i heap} hi := by
    have hne : i ≠ file := by
      rintro rfl
      rw [hfile] at hi
      exact hno heap (Option.some.inj hi)
    exact (FileSystem.write_file_of_ne hne).trans hi
  rows := FileSystem.write_view Disk.liveRowsIn hfile hrows
  started_eq := rfl
  tables := id

theorem onIndex_keepsHeaps (file : ℕ) (x : KeyIndex.Action α) :
    Within KeepsHeaps (onIndex file x) := by
  intro e
  unfold onIndex
  split
  case h_1 index hfile => exact .write hfile (by simp) rfl
  case h_2 => exact refl e

theorem onVersionLog_keepsHeaps (file : ℕ) (x : VersionLog.Action α) :
    Within KeepsHeaps (onVersionLog file x) := by
  intro e
  unfold onVersionLog
  split
  case h_1 records hfile => exact .write hfile (by simp) rfl
  case h_2 => exact refl e

theorem nowTimestampMs_keepsHeaps : Within KeepsHeaps nowTimestampMs :=
  fun _ => ⟨id, fun _ => rfl, rfl, id⟩

theorem appendVersion_keepsHeaps (db tbl : ByteString) (rid : ℕ) (op : VersionOp)
    (before after : Tuple) :
    Within KeepsHeaps (appendVersion db tbl rid op before after) :=
  ((openVersionLog_opens _ _).mono Opens.keepsHeaps).bind fun log =>
    nowTimestampMs_keepsHeaps.bind fun _ => onVersionLog_keepsHeaps log _

theorem onTable_get_within {R : StorageNodeEngine → StorageNodeEngine → Prop} [Std.Refl R]
    (file rid : ℕ) : Within R (onTable file (TableStorage.get rid)) := by
  intro e
  rw [onTable_get]
  exact refl e

/-- The tables in other files have the rows that they had. -/
def OtherRows (file : ℕ) (e e' : StorageNodeEngine) : Prop :=
  ∀ other, other ≠ file → e'.disk.liveRows other = e.disk.liveRows other

instance (file : ℕ) : Std.Refl (OtherRows file) where
  refl _ _ _ := rfl

instance (file : ℕ) : IsTrans StorageNodeEngine (OtherRows file) where
  trans _ _ _ h h' other hne := (h' other hne).trans (h other hne)

theorem SameRows.otherRows (h : SameRows e e') (file : ℕ) : OtherRows file e e' :=
  fun other _ => h other

theorem storeTable_otherRows (e : StorageNodeEngine) (file : ℕ) (heap : Heap) :
    OtherRows file e (e.storeTable file heap) := by
  intro other hne
  exact congrArg Disk.liveRowsIn (FileSystem.write_file_of_ne hne)

/-- The table is open, and `heap` is what its file holds. -/
structure OpenAt (dbName tableName : ByteString) (table : OpenTableState) (heap : Heap)
    (e : StorageNodeEngine) : Prop where
  started : e.started = true
  cached : e.openedTables (makeTableCacheKey dbName tableName) = some table
  file : e.disk.files table.file = some (.table heap)

namespace OpenAt

section

variable (h : OpenAt db tbl table heap e)
include h

theorem of_keepsHeaps (hk : KeepsHeaps e e') : OpenAt db tbl table heap e' :=
  ⟨hk.started_eq.trans h.started, hk.tables h.cached, hk.heaps h.file⟩

theorem storeTable (heap' : Heap) : OpenAt db tbl table heap' (e.storeTable table.file heap') :=
  ⟨h.started, h.cached, FileSystem.write_file_self h.file⟩

theorem liveRows_eq : e.disk.liveRows table.file = Heap.live heap.rows := by
  rw [Disk.liveRows, h.file]
  rfl

theorem openForChange_eq {table' : OpenTableState}
    (hopen : openForChange db tbl e = (.ok table', e₁)) : table' = table ∧ KeepsHeaps e e₁ := by
  obtain ⟨-, -, hcached⟩ := openForChange_ok hopen
  have hopens := (openForChange_opens db tbl).of_eq hopen
  exact ⟨(hcached table h.cached).symm, hopens.keepsHeaps⟩

theorem onTable_eq {x : Heap.Action α} {r : Except Status α}
    (hx : onTable table.file x e = (r, e')) :
    ∃ heap', x heap = (r, heap') ∧ OpenAt db tbl table heap' e' ∧
      OtherRows table.file e e' := by
  rw [onTable_of_file h.file] at hx
  obtain ⟨hr, rfl⟩ := Prod.mk.inj hx
  exact ⟨_, Prod.ext hr rfl, h.storeTable _, storeTable_otherRows e _ _⟩

/-- A call on the table between steps that keep what the tables hold. -/
theorem onTable_bind {β : Type} {x : Heap.Action α} {f : α → Action β} {b : β}
    (hk : KeepsHeaps e e₁) (hf : ∀ a, Within KeepsHeaps (f a))
    (hok : (onTable table.file x >>= f) e₁ = (.ok b, e')) :
    ∃ a heap' e₂, x heap = (.ok a, heap') ∧ f a e₂ = (.ok b, e') ∧
      OpenAt db tbl table heap' e' ∧ OtherRows table.file e e' := by
  obtain ⟨a, e₂, hx, hrest⟩ := bind_eq_ok.mp hok
  obtain ⟨heap', hheap, hat, hother⟩ := (h.of_keepsHeaps hk).onTable_eq hx
  have hk' := (hf a).of_eq hrest
  have hothers : OtherRows table.file e₁ e' := Trans.trans hother (hk'.rows.otherRows table.file)
  exact ⟨a, heap', e₂, hheap, hrest, hat.of_keepsHeaps hk',
    Trans.trans (hk.rows.otherRows table.file) hothers⟩

end

end OpenAt

theorem openTable_openAt (hstarted : e.started = true)
    (hopen : openTable db tbl e = (.ok table, e₁))
    (hfile : e₁.disk.files table.file = some (.table heap)) :
    OpenAt db tbl table heap e₁ ∧ KeepsHeaps e e₁ := by
  have hopens := (openTable_opens db tbl).of_eq hopen
  exact ⟨⟨hopens.started_eq.trans hstarted, openTable_caches hopen, hfile⟩, hopens.keepsHeaps⟩

section Calls

variable {rid : ℕ} {tuple : Tuple} {record : Bool}

theorem insertInternal_effect (h : OpenAt db tbl table heap e)
    (hok : insertInternal db tbl tuple record e = (.ok rid, e')) :
    ∃ heap', TableStorage.insert table.descriptor.schema tuple heap = (.ok rid, heap') ∧
      OpenAt db tbl table heap' e' ∧ OtherRows table.file e e' := by
  unfold insertInternal at hok
  obtain ⟨table', e₁, hopen, hok₁⟩ := bind_eq_ok.mp hok
  obtain ⟨rfl, hk₁⟩ := h.openForChange_eq hopen
  have hcall := h.onTable_bind hk₁ (fun rid' => ?_) hok₁
  · obtain ⟨rid', heap', e₂, hheap, hok₂, hafter⟩ := hcall
    obtain ⟨inserted, e₃, -, hok₃⟩ := bind_eq_ok.mp hok₂
    obtain ⟨⟨⟩, e₄, -, hok₄⟩ := bind_eq_ok.mp hok₃
    obtain rfl : rid' = rid := by
      split_ifs at hok₄
      · obtain ⟨⟨⟩, e₅, -, hok₅⟩ := bind_eq_ok.mp hok₄
        cases hok₅
        rfl
      · cases hok₄
        rfl
    exact ⟨heap', hheap, hafter⟩
  · refine (onTable_get_within _ _).bind fun inserted => ?_
    refine (eachKey_opened_within _ _ onIndex_keepsHeaps _).bind fun _ => ?_
    split_ifs
    · exact (appendVersion_keepsHeaps _ _ _ _ _ _).bind fun _ => Within.pure _
    · exact Within.pure _

/-- A successful insertion is the same after the table has been opened. -/
theorem insertInternal_opens (hok : insertInternal db tbl tuple record e = (.ok rid, e')) :
    ∃ table e₁ heap, openForChange db tbl e = (.ok table, e₁) ∧
      OpenAt db tbl table heap e₁ ∧
      insertInternal db tbl tuple record e₁ = (.ok rid, e') := by
  unfold insertInternal at hok
  obtain ⟨table, e₁, hopen, hok₁⟩ := bind_eq_ok.mp hok
  have hmounted := openForChange_mounts hopen
  have hagain : insertInternal db tbl tuple record e₁ = (.ok rid, e') := by
    unfold insertInternal
    rwa [bind_ok hmounted.openForChange]
  obtain ⟨rid', e₂, hinsert, -⟩ := bind_eq_ok.mp hok₁
  rcases onTable_cases table.file e₁ with ⟨heap, hfile⟩ | hnone
  · exact ⟨table, e₁, heap, hopen, ⟨hmounted.started, hmounted.cached, hfile⟩, hagain⟩
  · rw [hnone] at hinsert
    cases hinsert

theorem updateInternal_effect (h : OpenAt db tbl table heap e)
    (hok : updateInternal db tbl rid tuple record e = (.ok (), e')) :
    ∃ heap', TableStorage.update table.descriptor.schema rid tuple heap = (.ok (), heap') ∧
      OpenAt db tbl table heap' e' ∧ OtherRows table.file e e' := by
  unfold updateInternal at hok
  obtain ⟨table', e₁, hopen, hok₁⟩ := bind_eq_ok.mp hok
  obtain ⟨rfl, hk₁⟩ := h.openForChange_eq hopen
  obtain ⟨before, e₂, hget, hok₂⟩ := bind_eq_ok.mp hok₁
  obtain rfl : e₂ = e₁ := (congrArg Prod.snd hget).symm.trans (onTable_get table'.file rid e₁)
  have hcall := h.onTable_bind hk₁ (fun _ => ?_) hok₂
  · obtain ⟨⟨⟩, heap', e₃, hheap, -, hafter⟩ := hcall
    exact ⟨heap', hheap, hafter⟩
  · refine (onTable_get_within _ _).bind fun after => ?_
    refine (updateIndexes_within _ _ _ onIndex_keepsHeaps _ _).bind fun _ => ?_
    split_ifs
    · exact appendVersion_keepsHeaps _ _ _ _ _ _
    · exact Within.pure _

theorem deleteInternal_effect (h : OpenAt db tbl table heap e)
    (hok : deleteInternal db tbl rid record e = (.ok (), e')) :
    ∃ row heap', TableStorage.get rid heap = (.ok row, heap) ∧
      TableStorage.delete rid heap = (.ok (), heap') ∧
      OpenAt db tbl table heap' e' ∧ OtherRows table.file e e' := by
  unfold deleteInternal at hok
  obtain ⟨table', e₁, hopen, hok₁⟩ := bind_eq_ok.mp hok
  obtain ⟨rfl, hk₁⟩ := h.openForChange_eq hopen
  obtain ⟨before, e₂, hget, hok₂⟩ := bind_eq_ok.mp hok₁
  obtain rfl : e₂ = e₁ := (congrArg Prod.snd hget).symm.trans (onTable_get table'.file rid e₁)
  have hrow : TableStorage.get rid heap = (.ok before, heap) := by
    rcases TableStorage.get_cases rid heap with ⟨s, herr⟩ | ⟨row, -, -, hrow⟩
    · rw [onTable_of_same (hk₁.heaps h.file) herr] at hget
      cases hget
    · rw [onTable_of_same (hk₁.heaps h.file) hrow] at hget
      cases hget
      exact hrow
  obtain ⟨⟨⟩, e₃, hkeys, hok₃⟩ := bind_eq_ok.mp hok₂
  have hk₂ : KeepsHeaps e₂ e₃ :=
    (eachKey_opened_within _ _ onIndex_keepsHeaps _).of_eq hkeys
  have hcall := h.onTable_bind (Trans.trans hk₁ hk₂) (fun _ => ?_) hok₃
  · obtain ⟨⟨⟩, heap', e₄, hheap, -, hafter⟩ := hcall
    exact ⟨before, heap', hrow, hheap, hafter⟩
  · split_ifs
    · exact appendVersion_keepsHeaps _ _ _ _ _ _
    · exact Within.pure _

end Calls

end CourseDb.StorageNodeEngine

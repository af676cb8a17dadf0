import CourseDb.Runtime.RowCalls

/-! # When a failed call on a row has changed nothing

A failed insertion has changed nothing exactly if the table storage refused the
row; a failed update, if the storage refused the row or stored it as it was; a
failed deletion, if the first key to be removed could not be removed.
-/

namespace CourseDb.StorageNodeEngine

open Fallible (Within bind_ok bind_eq_ok bind_error bind_apply ofExcept_bind)
open TableStorage (get_cases update_cases insert_cases delete_cases)

inductive RowCall where
  | insert (tuple : Tuple)
  | update (rid : ℕ) (tuple : Tuple)
  | delete (rid : ℕ)

def RowCall.run (dbName tableName : ByteString) : RowCall → Action Unit
  | .insert tuple => do
    let _ ← StorageNodeEngine.insert dbName tableName tuple
    return ()
  | .update rid tuple => StorageNodeEngine.update dbName tableName rid tuple
  | .delete rid => StorageNodeEngine.delete dbName tableName rid

section Conditions

variable (dbName tableName : ByteString)

/-- If the call gets to the table, the table storage refuses the tuple. -/
def InsertRefused (tuple : Tuple) (e : StorageNodeEngine) : Prop :=
  ∀ table e' heap, openForChange dbName tableName e = (.ok table, e') →
    e'.disk.files table.file = some (.table heap) →
    ∃ s, (TableStorage.insert table.descriptor.schema tuple heap).1 = .error s

/-- If the call gets to the table, the table storage refuses the tuple or already has it. -/
def UpdateIdle (rid : ℕ) (tuple : Tuple) (e : StorageNodeEngine) : Prop :=
  ∀ table e' heap, openForChange dbName tableName e = (.ok table, e') →
    e'.disk.files table.file = some (.table heap) →
    (TableStorage.update table.descriptor.schema rid tuple heap).2.rows = heap.rows

/-- The first of the indexes with a key for the row does not remove it; if there
is none, the row itself is not deleted. -/
def FirstKeyRefused (descriptor : TableDescriptor) (tuple : Tuple) (rowRefused : Prop)
    (e : StorageNodeEngine) : List IndexDescriptor → Prop
  | [] => rowRefused
  | index :: indexes =>
    match extractIndexKey descriptor index tuple with
    | .error _ => True
    | .ok key =>
      if key.isNull then
        FirstKeyRefused descriptor tuple rowRefused e indexes
      else
        ∀ file x, e.openedIndexes index.name = some file → e.disk.files file = some (.index x) →
          ∃ s, (KeyIndex.delete key x).1 = .error s

def DeleteRefused (rid : ℕ) (e : StorageNodeEngine) : Prop :=
  ∀ table e' heap row, openForChange dbName tableName e = (.ok table, e') →
    e'.disk.files table.file = some (.table heap) → (TableStorage.get rid heap).1 = .ok row →
    FirstKeyRefused table.descriptor row.tuple
      (∃ s, (TableStorage.delete rid heap).1 = .error s) e' table.descriptor.indexes

def RowCall.ChangesNothing : RowCall → StorageNodeEngine → Prop
  | .insert tuple => InsertRefused dbName tableName tuple
  | .update rid tuple => UpdateIdle dbName tableName rid tuple
  | .delete rid => DeleteRefused dbName tableName rid

end Conditions

/-- The rows, the keys and the records of the version logs are the same. -/
structure Unchanged (e e' : StorageNodeEngine) : Prop where
  contents : e.disk.SameContents e'.disk
  records : ∀ file, e'.disk.records file = e.disk.records file

theorem Unchanged.trans {e₁ e₂ e₃ : StorageNodeEngine} (h : Unchanged e₁ e₂)
    (h' : Unchanged e₂ e₃) : Unchanged e₁ e₃ :=
  ⟨h.contents.trans h'.contents, fun i => (h'.records i).trans (h.records i)⟩

theorem Opens.unchanged {e e' : StorageNodeEngine} (h : Opens e e') : Unchanged e e' :=
  ⟨h.disk.sameContents, h.disk.records_eq⟩

section Insert

variable {db tbl : ByteString} {tuple : Tuple} {e : StorageNodeEngine}

theorem insertInternal_refused (h : InsertRefused db tbl tuple e) (record : Bool) :
    ∃ s, (insertInternal db tbl tuple record e).1 = .error s ∧
      Opens e (insertInternal db tbl tuple record e).2 := by
  unfold insertInternal
  have hopens := openForChange_opens db tbl e
  rcases hopen : openForChange db tbl e with ⟨s | table, e'⟩
  · rw [hopen] at hopens
    rw [bind_error hopen]
    exact ⟨s, rfl, hopens⟩
  · rw [hopen] at hopens
    rw [bind_ok hopen]
    rcases onTable_cases table.file e' with ⟨heap, hfile⟩ | hnone
    · obtain ⟨s, hs⟩ := h table e' heap hopen hfile
      rcases insert_cases table.descriptor.schema tuple heap with
        ⟨s', herr⟩ | ⟨rid, row, heap', hok, -⟩
      · rw [bind_error (onTable_of_same hfile herr)]
        exact ⟨s', rfl, hopens⟩
      · rw [hok] at hs
        cases hs
    · rw [bind_error (hnone _)]
      exact ⟨_, rfl, hopens⟩

/-- Once the row is stored it stays, whatever the indexes and the log answer. -/
theorem insertInternal_not_refused (h : ¬ InsertRefused db tbl tuple e) (record : Bool) :
    ∃ file, (e.disk.liveRows file).length <
      ((insertInternal db tbl tuple record e).2.disk.liveRows file).length := by
  unfold InsertRefused at h
  push Not at h
  obtain ⟨table, e', heap, hopen, hfile, hinsert⟩ := h
  have hopens := (openForChange_opens db tbl).of_eq hopen
  rcases insert_cases table.descriptor.schema tuple heap with
    ⟨s, herr⟩ | ⟨rid, row, heap', hok, hlive, hperm, -⟩
  · exact absurd (by rw [herr]) (hinsert s)
  · refine ⟨table.file, ?_⟩
    have hbefore : e.disk.liveRows table.file = Heap.live heap.rows := by
      rw [← hopens.disk.sameContents.liveRows, Disk.liveRows, hfile]
      rfl
    have hstored := onTable_of_file hfile (TableStorage.insert table.descriptor.schema tuple)
    rw [hok] at hstored
    unfold insertInternal
    rw [bind_ok hopen, bind_ok hstored]
    refine Nat.lt_of_lt_of_eq ?_ (congrArg List.length
      (Within.bind (R := SameRows) ?_ (fun inserted => ?_) _ table.file)).symm
    · change _ < (Disk.liveRowsIn ((e'.disk.write table.file (.table heap')).files _)).length
      rw [hbefore, FileSystem.write_file_self hfile]
      exact (Heap.length_live_insert hperm hlive).symm ▸ Nat.lt_succ_self _
    · exact fun e => by rw [onTable_get]; exact refl e
    · refine (eachKey_opened_within _ _ onIndex_sameRows _).bind fun _ => ?_
      split_ifs
      · exact ((appendVersion_keeps _ _ _ _ _ _).mono Keeps.sameRows).bind fun _ => Within.pure _
      · exact Within.pure _

end Insert

section Update

variable {db tbl : ByteString} {rid : ℕ} {tuple : Tuple} {e : StorageNodeEngine}

theorem appendVersion_error {op : VersionOp} {before after : Tuple} {s : Status}
    (h : (appendVersion db tbl rid op before after e).1 = .error s) :
    Unchanged e (appendVersion db tbl rid op before after e).2 := by
  unfold appendVersion at h ⊢
  have hopens := openVersionLog_opens db tbl e
  rcases hlog : openVersionLog db tbl e with ⟨s' | log, e'⟩
  · rw [hlog] at hopens
    rw [bind_error hlog]
    exact hopens.unchanged
  · rw [hlog] at hopens
    rw [bind_ok hlog, bind_ok (nowTimestampMs_apply e')] at h ⊢
    rw [onVersionLog_append_error h]
    exact hopens.unchanged.trans ⟨.rfl, fun _ => rfl⟩

theorem updateInternal_idle (h : UpdateIdle db tbl rid tuple e) (record : Bool) :
    Keeps (openForChange db tbl e).2
        (updateInternal db tbl rid tuple record e).2 ∧
      ∀ s, (updateInternal db tbl rid tuple record e).1 = .error s →
        Unchanged e (updateInternal db tbl rid tuple record e).2 := by
  unfold updateInternal
  have hopens := openForChange_opens db tbl e
  rcases hopen : openForChange db tbl e with ⟨s | table, e'⟩
  · rw [hopen] at hopens
    rw [bind_error hopen]
    exact ⟨refl e', fun _ _ => hopens.unchanged⟩
  · rw [hopen] at hopens
    rw [bind_ok hopen]
    rcases onTable_cases table.file e' with ⟨heap, hfile⟩ | hnone
    · have hrows := h table e' heap hopen hfile
      rcases get_cases rid heap with ⟨s, hget⟩ | ⟨row, -, -, hget⟩
      · rw [bind_error (onTable_of_same hfile hget)]
        exact ⟨refl e', fun _ _ => hopens.unchanged⟩
      · rw [bind_ok (onTable_of_same hfile hget)]
        rcases update_cases table.descriptor.schema rid tuple heap with
          ⟨s, hrefused⟩ | ⟨prepared, row', heap', -, -, -, hok, -, hsize⟩
        · rw [bind_error (onTable_of_same hfile hrefused)]
          exact ⟨refl e', fun _ _ => hopens.unchanged⟩
        · rw [hok] at hrows
          have hstored := onTable_of_file hfile (TableStorage.update table.descriptor.schema rid tuple)
          rw [hok] at hstored
          have hkeeps : Keeps e' { e' with disk := e'.disk.write table.file (.table heap') } :=
            ⟨.writeTable hfile hrows hsize, rfl, rfl, id⟩
          have hsame := hopens.unchanged.trans
            ⟨hkeeps.disk, Disk.records_write_table hfile heap'⟩
          rw [bind_ok hstored, bind_ok (onTable_of_same
            (FileSystem.write_file_self hfile) (TableStorage.get_congr hrows hget))]
          generalize ({ e' with disk := e'.disk.write table.file (.table heap') } :
            StorageNodeEngine) = e₁ at hkeeps hsame ⊢
          have hindexes := updateIndexes_self table.descriptor rid table.descriptor.indexes
            row.tuple e₁
          rcases hupdate : updateIndexes table.descriptor row.tuple row.tuple rid
            table.descriptor.indexes e₁ with ⟨s | ⟨⟩, e₂⟩
          · rw [hupdate] at hindexes
            cases hindexes
            rw [bind_error hupdate]
            exact ⟨hkeeps, fun _ _ => hsame⟩
          · rw [hupdate] at hindexes
            cases hindexes
            rw [bind_ok hupdate]
            split_ifs
            · exact ⟨Trans.trans hkeeps (appendVersion_keeps _ _ _ _ _ _ _),
                fun s herr => hsame.trans (appendVersion_error herr)⟩
            · exact ⟨hkeeps, fun _ _ => hsame⟩
    · rw [bind_error (hnone _)]
      exact ⟨refl e', fun _ _ => hopens.unchanged⟩

theorem updateInternal_ok {record : Bool} {e₁ : StorageNodeEngine}
    (h : updateInternal db tbl rid tuple record e = (.ok (), e₁)) :
    ∃ table e' heap, openForChange db tbl e = (.ok table, e') ∧
      e'.disk.files table.file = some (.table heap) ∧
      (TableStorage.update table.descriptor.schema rid tuple heap).1 = .ok () := by
  unfold updateInternal at h
  obtain ⟨table, e', hopen, h⟩ := bind_eq_ok.mp h
  obtain ⟨before, e₂, hget, h⟩ := bind_eq_ok.mp h
  obtain ⟨⟨⟩, e₃, hupdate, -⟩ := bind_eq_ok.mp h
  have hsame : e₂ = e' := (congrArg Prod.snd hget).symm.trans (onTable_get table.file rid e')
  rw [hsame] at hupdate
  rcases onTable_cases table.file e' with ⟨heap, hfile⟩ | hnone
  · rw [onTable_of_file hfile] at hupdate
    exact ⟨table, e', heap, hopen, hfile, congrArg Prod.fst hupdate⟩
  · rw [hnone] at hupdate
    cases hupdate

theorem updateInternal_not_idle (h : ¬ UpdateIdle db tbl rid tuple e) (record : Bool) :
    ¬ SameRows e (updateInternal db tbl rid tuple record e).2 := by
  unfold UpdateIdle at h
  push Not at h
  obtain ⟨table, e', heap, hopen, hfile, hchange⟩ := h
  have hopens := (openForChange_opens db tbl).of_eq hopen
  rcases update_cases table.descriptor.schema rid tuple heap with
    ⟨s, hrefused⟩ | ⟨prepared, row, heap', hfind, hlive, hget, hok, hrows, -⟩
  · exact absurd (by rw [hrefused]) hchange
  · have hstored := onTable_of_file hfile (TableStorage.update table.descriptor.schema rid tuple)
    rw [hok] at hstored hchange
    intro hsame
    unfold updateInternal at hsame
    rw [bind_ok hopen, bind_ok (onTable_of_same hfile hget),
      bind_ok hstored] at hsame
    have hafter := (hsame table.file).symm.trans
      (Within.bind (R := SameRows) (fun e => by rw [onTable_get]; exact refl e)
        (fun after => ?_) _ table.file)
    · rw [← hopens.disk.sameContents.liveRows] at hafter
      unfold Disk.liveRows at hafter
      rw [hfile, FileSystem.write_file_self hfile] at hafter
      change Heap.live heap.rows = Heap.live heap'.rows at hafter
      rw [hrows] at hafter
      exact hchange (hrows.trans (Heap.live_changeRow_tuple hfind hlive hafter.symm))
    · refine (updateIndexes_within _ _ _ onIndex_sameRows _ _).bind fun _ => ?_
      split_ifs
      · exact (appendVersion_keeps _ _ _ _ _ _).mono Keeps.sameRows
      · exact Within.pure _

end Update

section Delete

variable {db tbl : ByteString} {rid : ℕ} {e : StorageNodeEngine}
  {desc : TableDescriptor} {tuple : Tuple} {rowRefused : Prop}
  {indexes : List IndexDescriptor}

theorem deleteFromIndexes_refused (h : FirstKeyRefused desc tuple rowRefused e indexes) :
    (∃ s, deleteFromIndexes desc tuple indexes e = (.error s, e)) ∨
      deleteFromIndexes desc tuple indexes e = (.ok (), e) ∧ rowRefused := by
  induction indexes with
  | nil => exact .inr ⟨rfl, h⟩
  | cons index indexes ih =>
    unfold FirstKeyRefused at h
    unfold deleteFromIndexes eachKey
    rcases hextract : extractIndexKey desc index tuple with s | key
    · exact .inl ⟨s, rfl⟩
    · rw [hextract] at h
      rw [ofExcept_bind rfl]
      dsimp only at h
      split_ifs at h ⊢ with hnull
      · exact ih h
      · rcases indexDelete_cases index.name key e with
          ⟨s, hdel, -⟩ | ⟨file, x, hname, hfile, -, hok, -⟩
        · exact .inl ⟨s, bind_error hdel⟩
        · obtain ⟨s, hs⟩ := h file x hname hfile
          rw [hok] at hs
          cases hs

theorem deleteFromIndexes_not_refused (h : ¬ FirstKeyRefused desc tuple rowRefused e indexes) :
    (∃ file key, e.disk.keys file key ≠ none ∧
        (deleteFromIndexes desc tuple indexes e).2.disk.keys file key = none) ∨
      deleteFromIndexes desc tuple indexes e = (.ok (), e) ∧ ¬ rowRefused := by
  induction indexes with
  | nil => exact .inr ⟨rfl, h⟩
  | cons index indexes ih =>
    unfold FirstKeyRefused at h
    unfold deleteFromIndexes eachKey
    rcases hextract : extractIndexKey desc index tuple with s | key
    · rw [hextract] at h
      exact absurd trivial h
    · rw [hextract] at h
      rw [ofExcept_bind rfl]
      dsimp only at h
      split_ifs at h ⊢ with hnull
      · exact ih h
      · rcases indexDelete_cases index.name key e with
          ⟨s, -, hrefused⟩ | ⟨file, x, hname, hfile, hkey, -, hdel⟩
        · exact absurd hrefused h
        · left
          refine ⟨file, key, by rw [Disk.keys, hfile]; exact hkey, ?_⟩
          rw [bind_ok hdel]
          apply eachKey_within _ _ indexDelete_addsNoKey
          unfold Disk.keys
          rw [FileSystem.write_file_self hfile]
          exact Function.update_self _ _ _

theorem deleteInternal_refused (h : DeleteRefused db tbl rid e) (record : Bool) :
    ∃ s, (deleteInternal db tbl rid record e).1 = .error s ∧
      Opens e (deleteInternal db tbl rid record e).2 := by
  unfold deleteInternal
  have hopens := openForChange_opens db tbl e
  rcases hopen : openForChange db tbl e with ⟨s | table, e'⟩
  · rw [hopen] at hopens
    rw [bind_error hopen]
    exact ⟨s, rfl, hopens⟩
  · rw [hopen] at hopens
    rw [bind_ok hopen]
    rcases onTable_cases table.file e' with ⟨heap, hfile⟩ | hnone
    · rcases get_cases rid heap with ⟨s, hget⟩ | ⟨row, -, -, hget⟩
      · rw [bind_error (onTable_of_same hfile hget)]
        exact ⟨s, rfl, hopens⟩
      · rw [bind_ok (onTable_of_same hfile hget)]
        rcases deleteFromIndexes_refused (h table e' heap row hopen hfile (by rw [hget])) with
          ⟨s, hkeys⟩ | ⟨hkeys, s, hrow⟩
        · rw [bind_error hkeys]
          exact ⟨s, rfl, hopens⟩
        · rw [bind_ok hkeys]
          rcases delete_cases hget with ⟨s', hdel⟩ | ⟨heap', -, -, hdel, -⟩
          · rw [bind_error (onTable_of_same hfile hdel)]
            exact ⟨s', rfl, hopens⟩
          · rw [hdel] at hrow
            cases hrow
    · rw [bind_error (hnone _)]
      exact ⟨_, rfl, hopens⟩

/-- A key that is removed first stays removed when a later step fails. -/
theorem deleteInternal_not_refused (h : ¬ DeleteRefused db tbl rid e) (record : Bool) :
    (∃ file key, e.disk.keys file key ≠ none ∧
        (deleteInternal db tbl rid record e).2.disk.keys file key = none) ∨
      ∃ file, ((deleteInternal db tbl rid record e).2.disk.liveRows file).length <
        (e.disk.liveRows file).length := by
  unfold DeleteRefused at h
  push Not at h
  obtain ⟨table, e', heap, row, hopen, hfile, hrow, hkeys⟩ := h
  have hopens := (openForChange_opens db tbl).of_eq hopen
  have hget : TableStorage.get rid heap = (.ok row, heap) := by
    rcases get_cases rid heap with ⟨s, hget⟩ | ⟨row', -, -, hget⟩
    · rw [hget] at hrow
      cases hrow
    · rw [hget] at hrow ⊢
      cases hrow
      rfl
  unfold deleteInternal
  rw [bind_ok hopen, bind_ok (onTable_of_same hfile hget)]
  rcases deleteFromIndexes_not_refused hkeys with ⟨file, key, hsome, hnone⟩ | ⟨hkeys, hdelete⟩
  · left
    refine ⟨file, key, by rwa [← hopens.disk.sameContents.keys file], ?_⟩
    rcases hdel : deleteFromIndexes table.descriptor row.tuple table.descriptor.indexes e' with
      ⟨s | ⟨⟩, e₁⟩
    · rw [hdel] at hnone
      rw [bind_error hdel]
      exact hnone
    · rw [hdel] at hnone
      rw [bind_ok hdel]
      refine (onTable_addsNoKey _ _).bind (fun _ => ?_) e₁ file key hnone
      split_ifs
      · exact (appendVersion_keeps _ _ _ _ _ _).mono Keeps.addsNoKey
      · exact Within.pure _
  · right
    rcases delete_cases hget with ⟨s, hdel⟩ | ⟨heap', hfind, hlive, hdel, hrows, -⟩
    · exact absurd ⟨s, by rw [hdel]⟩ hdelete
    · have hstored := onTable_of_file hfile (TableStorage.delete rid)
      rw [hdel] at hstored
      rw [bind_ok hkeys, bind_ok hstored]
      refine ⟨table.file, ?_⟩
      have hrest : Within SameRows (if record then
          appendVersion db tbl rid .kDelete row.tuple [] else pure ()) := by
        split_ifs
        · exact (appendVersion_keeps _ _ _ _ _ _).mono Keeps.sameRows
        · exact Within.pure _
      rw [hrest _ table.file, ← hopens.disk.sameContents.liveRows]
      unfold Disk.liveRows
      rw [hfile, FileSystem.write_file_self hfile]
      change (Heap.live heap'.rows).length < (Heap.live heap.rows).length
      rw [hrows, ← Heap.length_live_delete hfind hlive]
      exact Nat.lt_succ_self _

end Delete

/-- A failed call has changed nothing exactly if it failed before its first change. -/
theorem rowCall_unchanged_iff (dbName tableName : ByteString) (call : RowCall)
    (e : StorageNodeEngine) {s : Status} (herr : (call.run dbName tableName e).1 = .error s) :
    Unchanged e (call.run dbName tableName e).2 ↔ call.ChangesNothing dbName tableName e := by
  cases call with
  | insert tuple =>
    have hstate : (RowCall.run dbName tableName (.insert tuple) e).2 =
        (insertInternal dbName tableName tuple true e).2 := by
      rw [RowCall.run, bind_apply, StorageNodeEngine.insert]
      rcases insertInternal dbName tableName tuple true e with ⟨_ | _, _⟩ <;> rfl
    rw [hstate]
    constructor
    · intro hsame
      by_contra hrefused
      obtain ⟨file, hlt⟩ := insertInternal_not_refused hrefused true
      rw [hsame.contents.liveRows] at hlt
      exact lt_irrefl _ hlt
    · intro hrefused
      obtain ⟨-, -, hopens⟩ := insertInternal_refused hrefused true
      exact hopens.unchanged
  | update rid tuple =>
    constructor
    · intro hsame
      by_contra hidle
      exact updateInternal_not_idle hidle true hsame.contents.liveRows
    · intro hidle
      exact (updateInternal_idle hidle true).2 s herr
  | delete rid =>
    constructor
    · intro hsame
      by_contra hrefused
      rcases deleteInternal_not_refused hrefused true with ⟨file, key, hsome, hnone⟩ | ⟨file, hlt⟩
      · exact hsome (by rw [← hsame.contents.keys file]; exact hnone)
      · exact absurd (congrArg List.length (hsame.contents.liveRows file)) (Nat.ne_of_lt hlt)
    · intro hrefused
      obtain ⟨-, -, hopens⟩ := deleteInternal_refused hrefused true
      exact hopens.unchanged

/-- A table with one column, which is indexed. -/
def keyTable : TableDescriptor :=
  { databaseName := ascii "d", tableName := ascii "t", dataFile := [], indexDir := []
    schema := [{ name := ascii "id", notNull := true, indexed := true }]
    indexes :=
      [{ name := ascii "t_id_idx", tableName := ascii "t", columnName := ascii "id",
         filePath := [] }] }

def insertKey : RowCall := .insert [.int 1]

def withKey : StorageNodeEngine :=
  Prod.snd <| (show Action Unit from do
    start
    createDatabase (ascii "d")
    createTable keyTable
    insertKey.run (ascii "d") (ascii "t")) (new {} .empty fun _ => 0)

theorem rowCall_unchanged_iff_insertKey :
    (insertKey.run (ascii "d") (ascii "t") withKey).1 = .error BStarTree.keyAlreadyExists ∧
      (Unchanged withKey (insertKey.run (ascii "d") (ascii "t") withKey).2 ↔
        insertKey.ChangesNothing (ascii "d") (ascii "t") withKey) :=
  ⟨by decide +kernel,
    rowCall_unchanged_iff (ascii "d") (ascii "t") insertKey withKey
      (s := BStarTree.keyAlreadyExists) (by decide +kernel)⟩

/-- The row with the key that is refused is in the table all the same. -/
theorem rowCall_stores_refused_row :
    (insertKey.run (ascii "d") (ascii "t") withKey).1 = .error BStarTree.keyAlreadyExists ∧
      withKey.disk.liveRows 2 = [⟨0, [.int 1], false⟩] ∧
      (insertKey.run (ascii "d") (ascii "t") withKey).2.disk.liveRows 2 =
        [⟨0, [.int 1], false⟩, ⟨1, [.int 1], false⟩] ∧
      ¬ Unchanged withKey (insertKey.run (ascii "d") (ascii "t") withKey).2 := by
  have hbefore : withKey.disk.liveRows 2 = [⟨0, [.int 1], false⟩] := by decide +kernel
  have hafter : (insertKey.run (ascii "d") (ascii "t") withKey).2.disk.liveRows 2 =
      [⟨0, [.int 1], false⟩, ⟨1, [.int 1], false⟩] := by decide +kernel
  refine ⟨by decide +kernel, hbefore, hafter, fun h => ?_⟩
  have hsame := h.contents.liveRows 2
  rw [hbefore, hafter] at hsame
  cases hsame

end CourseDb.StorageNodeEngine

import CourseDb.Lib.Conformance
import CourseDb.Storage.HeapMap

/-! # The row store refines a map

The calls of a row store, with closing and reopening of its file among them,
are those of a map from row ids to tuples and deletion flags. The map knows
nothing of pages except the size at which a tuple no longer fits one.
-/

namespace CourseDb.RowStore

open Fallible (read_bind bind_ok ofExcept_bind zoom_of_eq)
open Codec Heap

section Reopening

variable {h : Heap}

theorem deserializeMetadata_metadataPage {pageSize next count : ℕ} (stored : ℕ)
    (hnext : next < 2 ^ 64) (hcount : count < 2 ^ 64) :
    deserializeMetadata (metadataPage pageSize next count stored) =
      .ok { version := rowStoreVersion, nextRowId := next, dataPageCount := count,
            activeRowCount := stored % 256 ^ 8 } := by
  have hdec : Decodes readMetadata
      (writeUint32 rowStoreVersion ++ (writeUint64 next ++ (writeUint64 count ++
        writeUint64 stored)))
      { version := rowStoreVersion, nextRowId := next, dataPageCount := count,
        activeRowCount := stored % 256 ^ 8 } :=
    (readUint32_decodes (by decide)).bind ((readUint64_decodes hnext).bind
      ((readUint64_decodes hcount).bind ((Decodes.uint_mod _ 8 stored).map (Decodes.pure _))))
  have hread := hdec.front rowStoreMagic
    (List.replicate (pageSize - (serializeMetadata
      { version := rowStoreVersion, nextRowId := next, dataPageCount := count,
        activeRowCount := stored }).length) 0) rfl
  unfold deserializeMetadata
  rw [if_neg (by simp [metadataPage, fillPage, serializeMetadata, metadataPagePayloadOffset]),
    if_neg (by simp [metadataPage, fillPage, serializeMetadata])]
  rw [metadataPage, fillPage]
  nth_rewrite 1 [serializeMetadata]
  rw [List.append_assoc, metadataPagePayloadOffset, hread]
  rfl

/-- A store whose file is open but whose counters are not loaded. -/
def unloaded (pageSize : ℕ) (pages : List ByteString) : RowStore :=
  { opened pageSize pages 0 0 0 with isOpen := false }

theorem openStore_new {pageSize : ℕ} (hmin : 36 ≤ pageSize) (hmax : pageSize < 2 ^ 32) :
    openStore (new pageSize none) = (.ok (), ofHeap (empty pageSize) 0 0) := by
  have hfile : onPages PageManager.openFile (new pageSize none) =
      (.ok (), unloaded pageSize []) := by
    refine zoom_of_eq (t := (unloaded pageSize []).pageManager) ?_
    have hpos : pageSize ≠ 0 := by omega
    simp [PageManager.openFile, new, PageManager.new, hpos, unloaded, opened]
  have halloc : onPages PageManager.allocatePage (unloaded pageSize []) =
      (.ok 0, unloaded pageSize [List.replicate pageSize 0]) := by
    refine zoom_of_eq (t := (unloaded pageSize [List.replicate pageSize 0]).pageManager) ?_
    have hcap : ¬ pageFileHeaderSize + (0 + 1) * pageSize > maxFileOffset := by
      simp only [pageFileHeaderSize, maxFileOffset]
      omega
    exact if_neg hcap
  have hwrite : onPages (PageManager.writePage metadataPageId (metadataPage pageSize 0 0 0))
      (unloaded pageSize [List.replicate pageSize 0]) =
      (.ok (), unloaded pageSize [metadataPage pageSize 0 0 0]) :=
    zoom_of_eq (PageManager.writePage_ok rfl Nat.one_pos (metadataPage_length hmin 0 0 0))
  have hinit : loadOrInitialize (unloaded pageSize []) =
      (.ok (), unloaded pageSize [metadataPage pageSize 0 0 0]) := by
    have hlen : ∀ m, ¬ (serializeMetadata m).length >
        (unloaded pageSize [List.replicate pageSize 0]).pageSize := by
      intro m
      rw [metadataBytes_length]
      exact Nat.not_lt.mpr hmin
    change initializeStore (unloaded pageSize []) = _
    unfold initializeStore
    rw [bind_ok halloc, if_neg (by decide), read_bind,
      if_neg (hlen _)]
    exact bind_ok hwrite
  unfold openStore
  rw [read_bind, if_neg (by simp [new]),
    bind_ok hfile, bind_ok hinit]
  rfl

/-- Opening the file of a store again loads the counters of its metadata page. -/
theorem openStore_encoded (hv : h.Valid) (hcount : h.pages.length < 2 ^ 64) {next : ℕ}
    (hnext : next < 2 ^ 64) (stored active : ℕ) :
    openStore (new h.pageSize (encoded h
        (metadataPage h.pageSize next h.pages.length stored) active).pageManager.file) =
      (.ok (), encoded { h with nextRowId := next }
        (metadataPage h.pageSize next h.pages.length stored) (stored % 256 ^ 8)) := by
  have hmin := hv.minSize
  obtain ⟨pages, hpages⟩ : ∃ pages, pages =
    metadataPage h.pageSize next h.pages.length stored ::
      h.pages.map (dataPage h.pageSize) := ⟨_, rfl⟩
  have hfile : onPages PageManager.openFile
      (new h.pageSize (encoded h (metadataPage h.pageSize next h.pages.length stored)
        active).pageManager.file) =
      (.ok (), unloaded h.pageSize pages) := by
    refine zoom_of_eq (t := (unloaded h.pageSize pages).pageManager) ?_
    have hpos : h.pageSize ≠ 0 := by omega
    simp [PageManager.openFile, new, PageManager.new, hpos, unloaded, opened, encoded, hpages]
  have hload : loadOrInitialize (unloaded h.pageSize pages) =
      (.ok (), { unloaded h.pageSize pages with
        nextRowId := next, dataPageCount := h.pages.length,
        activeRowCount := stored % 256 ^ 8 }) := by
    have hpage : (unloaded h.pageSize pages).pageManager.pages[metadataPageId]? =
        some (metadataPage h.pageSize next h.pages.length stored) := by
      rw [hpages]
      rfl
    unfold loadOrInitialize
    rw [read_bind, PageManager.readPage_some rfl hpage]
    dsimp only
    unfold loadMetadata
    rw [deserializeMetadata_metadataPage stored hnext hcount,
      ofExcept_bind rfl, if_neg (by simp)]
    rfl
  unfold openStore
  rw [read_bind, if_neg (by simp [new]),
    bind_ok hfile, bind_ok hload, hpages]
  rfl

end Reopening

/-- The calls of a row store. `reopen` closes the file and opens it again. -/
inductive Op where
  | insert (tuple : Tuple)
  | update (rid : ℕ) (tuple : Tuple)
  | delete (rid : ℕ)
  | restore (row : Row)
  | get (rid : ℕ)
  | scan
  | reopen

inductive Answer where
  | ok
  | rid (rid : ℕ)
  | row (row : Row)
  | rows (rows : List Row)
  | error (status : Status)
deriving DecidableEq

def answer {α : Type} (f : α → Answer) : Except Status α → Answer
  | .ok a => f a
  | .error e => .error e

def step (s : RowStore) : Op → Answer × RowStore
  | .insert tuple => (insert tuple s).map (answer .rid) id
  | .update rid tuple => (update rid tuple s).map (answer fun _ => .ok) id
  | .delete rid => (delete rid s).map (answer fun _ => .ok) id
  | .restore row => (restore row s).map (answer fun _ => .ok) id
  | .get rid => (get rid s).map (answer .row) id
  | .scan => (scan s).map (answer .rows) id
  | .reopen => (openStore (new s.pageSize s.pageManager.file)).map (answer fun _ => .ok) id

/-- A store on a new file, after `Open`. -/
def initial (pageSize : ℕ) : RowStore := (openStore (new pageSize none)).2

/-- The abstract state: the map, and the ids that insertions have returned. -/
structure Abstract where
  rows : RowMap
  returned : List ℕ

/-- What the callers respect: the tuple reader's limit, restoring only rows
that were inserted, and fewer than `2 ^ 64` insertions. -/
def Respects (a : Abstract) : Op → Prop
  | .insert tuple => tuple.length ≤ maxTupleValues ∧ a.returned.length + 1 < 2 ^ 64
  | .update _ tuple => tuple.length ≤ maxTupleValues
  | .restore row => row.tuple.length ≤ maxTupleValues ∧ row.rid ∈ a.returned
  | _ => True

/-- What the callers respect, and a device that works. -/
def Assumption (a : Abstract) (op : Op) (out : Answer) : Prop :=
  out ≠ .error PageManager.allocationFailed ∧ Respects a op

/-- The abstract map's answer to each call, and the map it leaves. -/
def MapSpec (pageSize : ℕ) (a : Abstract) (op : Op) (out : Answer) (a' : Abstract) : Prop :=
  match op with
  | .insert tuple =>
    if pageBytes tuple ≤ pageSize then
      ∃ rid, rid ∉ a.returned ∧ out = .rid rid ∧
        a' = ⟨Function.update a.rows rid (some (tuple, false)), rid :: a.returned⟩
    else
      out = .error entryTooLarge ∧ a' = a
  | .update rid tuple =>
    match a.rows rid with
    | none => out = .error rowNotFound ∧ a' = a
    | some (_, true) => out = .error rowIsDeleted ∧ a' = a
    | some (_, false) =>
      if pageBytes tuple ≤ pageSize then
        out = .ok ∧ a' = { a with rows := Function.update a.rows rid (some (tuple, false)) }
      else
        out = .error rowTooLarge ∧ a' = a
  | .delete rid =>
    match a.rows rid with
    | none => out = .error rowNotFound ∧ a' = a
    | some (tuple, _) =>
      out = .ok ∧ a' = { a with rows := Function.update a.rows rid (some (tuple, true)) }
  | .restore row =>
    if pageBytes row.tuple ≤ pageSize then
      out = .ok ∧ a' = { a with rows := Function.update a.rows row.rid (some (row.tuple, false)) }
    else
      out = .error rowTooLarge ∧ a' = a
  | .get rid =>
    a' = a ∧
      match a.rows rid with
      | none => out = .error rowNotFound
      | some (_, true) => out = .error rowIsDeleted
      | some (tuple, false) => out = .row ⟨rid, tuple, false⟩
  | .scan =>
    a' = a ∧ ∃ rows, out = .rows rows ∧ (rows.map Row.rid).Nodup ∧
      ∀ rid tuple deleted, (⟨rid, tuple, deleted⟩ : Row) ∈ rows ↔
        deleted = false ∧ a.rows rid = some (tuple, false)
  | .reopen => out = .ok ∧ a' = a

theorem not_mapSpec_allocationFailed {pageSize : ℕ} {a a' : Abstract} {op : Op} :
    ¬ MapSpec pageSize a op (.error PageManager.allocationFailed) a' := by
  unfold MapSpec
  repeat' split
  all_goals simp [entryTooLarge, rowTooLarge, rowNotFound, rowIsDeleted, PageManager.allocationFailed]

/-- The store encodes a sound heap with the abstract content. -/
def Refines (pageSize : ℕ) (s : RowStore) (a : Abstract) : Prop :=
  ∃ h : Heap, Rep s h ∧ h.Sound ∧ h.pageSize = pageSize ∧ h.lookup = a.rows ∧
    a.returned.length = h.nextRowId ∧ ∀ rid ∈ a.returned, rid < h.nextRowId

section Steps

variable {pageSize rid : ℕ} {s : RowStore} {a : Abstract} {α : Type} {tuple : Tuple}

/-- The call is answered as the map allows, or refused at the limit of the device. -/
def Serves (pageSize : ℕ) (a : Abstract) (op : Op) (r : Answer × RowStore) : Prop :=
  (r.1 = .error PageManager.allocationFailed ∧ r.2.pageManager.Full) ∨
    Meets (MapSpec pageSize a op) (Refines pageSize) r

theorem Simulates.serves {op : Op} {r : Except Status α × RowStore} {q : Except Status α × Heap}
    {f : α → Answer} (hsim : Simulates r q)
    (hq : Meets (MapSpec pageSize a op) (fun h a => ∀ s, Rep s h → Refines pageSize s a)
      (q.map (answer f) id)) : Serves pageSize a op (r.map (answer f) id) := by
  rcases hsim with ⟨s', rfl, hfull⟩ | ⟨heq, hrep⟩
  · exact .inl ⟨rfl, hfull⟩
  · obtain ⟨a', hspec, hrefines⟩ := hq
    refine .inr ⟨a', ?_, hrefines _ hrep⟩
    change MapSpec pageSize a op (answer f r.1) a'
    rw [heq]
    exact hspec

theorem Refines.of_becomes {h h' : Heap} {m : RowMap} (hbec : Becomes h h' m)
    (hsize : h.pageSize = pageSize) (hlen : a.returned.length = h.nextRowId)
    (hlt : ∀ rid ∈ a.returned, rid < h.nextRowId) (s' : RowStore) (hrep : Rep s' h') :
    Refines pageSize s' { a with rows := m } := by
  refine ⟨h', hrep, hbec.sound, hbec.pageSize_eq.trans hsize, hbec.lookup_eq, ?_, ?_⟩
  · rw [hbec.next_eq]
    exact hlen
  · rw [hbec.next_eq]
    exact hlt

section

variable (href : Refines pageSize s a)
include href

theorem insert_serves (hrespects : Respects a (.insert tuple)) :
    Serves pageSize a (.insert tuple) (step s (.insert tuple)) := by
  obtain ⟨h, hrep, hs, rfl, hmap, hlen, hlt⟩ := href
  obtain ⟨ht, hcount⟩ := hrespects
  refine (insert_simulates hrep tuple).serves ?_
  have hspec := insert_spec hs ht
  unfold MapSpec
  by_cases hfit : pageBytes tuple ≤ h.pageSize
  · simp only [if_pos hfit] at hspec ⊢
    obtain ⟨h', hins, hlook, hnext, hsize, hsound⟩ := hspec
    rw [hins]
    rw [Nat.mod_eq_of_lt (by omega)] at hnext
    refine ⟨_, ⟨h.nextRowId, fun hmem => lt_irrefl _ (hlt _ hmem), rfl, rfl⟩,
      fun s' hrep' => ⟨h', hrep', hsound (by omega), hsize, ?_, ?_, ?_⟩⟩
    · rw [hlook, hmap]
    · rw [List.length_cons, hlen, hnext]
    · intro rid hmem
      rw [hnext]
      rcases List.mem_cons.mp hmem with rfl | hmem
      · exact Nat.lt_succ_self _
      · exact Nat.lt_succ_of_lt (hlt rid hmem)
  · simp only [if_neg hfit] at hspec ⊢
    rw [hspec]
    exact ⟨a, ⟨rfl, rfl⟩, fun s' hrep' => ⟨h, hrep', hs, rfl, hmap, hlen, hlt⟩⟩

theorem update_serves (ht : tuple.length ≤ maxTupleValues) :
    Serves pageSize a (.update rid tuple) (step s (.update rid tuple)) := by
  obtain ⟨h, hrep, hs, rfl, hmap, hlen, hlt⟩ := href
  refine (update_simulates hrep rid tuple).serves ?_
  have hsame : ∀ s', Rep s' h → Refines h.pageSize s' a := fun s' hrep' =>
    ⟨h, hrep', hs, rfl, hmap, hlen, hlt⟩
  have hspec := update_spec hs rid ht
  unfold MapSpec
  rw [hmap] at hspec
  split at hspec
  · next hnone =>
    rw [hspec]
    simp only [hnone]
    exact ⟨a, ⟨rfl, rfl⟩, hsame⟩
  · next hdel =>
    rw [hspec]
    simp only [hdel]
    exact ⟨a, ⟨rfl, rfl⟩, hsame⟩
  · next hlive =>
    simp only [hlive]
    split_ifs at hspec ⊢ with hfit
    · obtain ⟨h', hupd, hbec⟩ := hspec
      rw [hupd]
      exact ⟨_, ⟨rfl, rfl⟩, Refines.of_becomes hbec rfl hlen hlt⟩
    · rw [hspec]
      exact ⟨a, ⟨rfl, rfl⟩, hsame⟩

theorem delete_serves : Serves pageSize a (.delete rid) (step s (.delete rid)) := by
  obtain ⟨h, hrep, hs, rfl, hmap, hlen, hlt⟩ := href
  refine (delete_simulates hrep rid).serves ?_
  have hspec := delete_spec hs rid
  unfold MapSpec
  rw [hmap] at hspec
  split at hspec
  · next hnone =>
    rw [hspec]
    simp only [hnone]
    exact ⟨a, ⟨rfl, rfl⟩, fun s' hrep' => ⟨h, hrep', hs, rfl, hmap, hlen, hlt⟩⟩
  · next tuple hdel =>
    rw [hspec]
    simp only [hdel]
    refine ⟨_, ⟨rfl, rfl⟩, fun s' hrep' => ⟨h, hrep', hs, rfl, ?_, hlen, hlt⟩⟩
    rw [hmap, ← hdel, Function.update_eq_self]
  · next tuple hlive =>
    obtain ⟨h', hdel, hbec⟩ := hspec
    rw [hdel]
    simp only [hlive]
    exact ⟨_, ⟨rfl, rfl⟩, Refines.of_becomes hbec rfl hlen hlt⟩

theorem restore_serves {row : Row} (hrespects : Respects a (.restore row)) :
    Serves pageSize a (.restore row) (step s (.restore row)) := by
  obtain ⟨h, hrep, hs, rfl, hmap, hlen, hlt⟩ := href
  obtain ⟨ht, hmem⟩ := hrespects
  refine (restore_simulates hrep (hlt _ hmem)).serves ?_
  have hspec := restore_spec hs (hlt _ hmem) ht
  unfold MapSpec
  rw [hmap] at hspec
  by_cases hfit : pageBytes row.tuple ≤ h.pageSize
  · simp only [if_pos hfit] at hspec ⊢
    obtain ⟨h', hres, hbec⟩ := hspec
    rw [hres]
    exact ⟨_, ⟨rfl, rfl⟩, Refines.of_becomes hbec rfl hlen hlt⟩
  · simp only [if_neg hfit] at hspec ⊢
    rw [hspec]
    exact ⟨a, ⟨rfl, rfl⟩, fun s' hrep' => ⟨h, hrep', hs, rfl, hmap, hlen, hlt⟩⟩

theorem get_serves : Serves pageSize a (.get rid) (step s (.get rid)) := by
  obtain ⟨h, hrep, hs, rfl, hmap, hlen, hlt⟩ := href
  refine (get_simulates hrep rid).serves ?_
  rw [get_spec hs rid, hmap]
  refine ⟨a, ⟨rfl, ?_⟩, fun s' hrep' => ⟨h, hrep', hs, rfl, hmap, hlen, hlt⟩⟩
  rcases a.rows rid with _ | ⟨tuple, _ | _⟩ <;> rfl

theorem scan_serves : Serves pageSize a .scan (step s .scan) := by
  obtain ⟨h, hrep, hs, rfl, hmap, hlen, hlt⟩ := href
  refine (scan_simulates hrep).serves ?_
  rw [scan_spec hs]
  refine ⟨a, ⟨rfl, _, rfl, ?_, ?_⟩, fun s' hrep' => ⟨h, hrep', hs, rfl, hmap, hlen, hlt⟩⟩
  · exact (List.filter_sublist.map Row.rid).nodup hs.nodup
  · intro rid tuple deleted
    rw [List.mem_filter, ← hmap, lookup, rowMap_eq_some_iff hs.nodup]
    cases deleted <;> simp

theorem reopen_serves : Serves pageSize a .reopen (step s .reopen) := by
  obtain ⟨h, ⟨hv, hcount, stored, active, rfl⟩, hs, rfl, hmap, hlen, hlt⟩ := href
  have hopen : openStore (new h.pageSize (ofHeap h stored active).pageManager.file) = _ :=
    openStore_encoded hv hcount hv.next_lt stored active
  change Serves _ _ _ ((openStore (new h.pageSize (ofHeap h stored active).pageManager.file)).map
    (answer fun _ => .ok) id)
  rw [hopen]
  exact .inr ⟨a, ⟨rfl, rfl⟩, h, ⟨hv, hcount, _, _, rfl⟩, hs, rfl, hmap, hlen, hlt⟩

theorem step_serves {op : Op} (hrespects : Respects a op) : Serves pageSize a op (step s op) := by
  cases op with
  | insert tuple => exact insert_serves href hrespects
  | update rid tuple => exact update_serves href hrespects
  | delete rid => exact delete_serves href
  | restore row => exact restore_serves href hrespects
  | get rid => exact get_serves href
  | scan => exact scan_serves href
  | reopen => exact reopen_serves href

/-- No page is refused to a call unless the file cannot grow by one. -/
theorem full_of_allocationFailed {op : Op} (hrespects : Respects a op)
    (hfail : (step s op).1 = .error PageManager.allocationFailed) :
    (step s op).2.pageManager.Full := by
  rcases step_serves href hrespects with hlimit | ⟨a', hspec, -⟩
  · exact hlimit.2
  · rw [hfail] at hspec
    exact absurd hspec not_mapSpec_allocationFailed

end

end Steps

/-- Every run of a row store on a new file conforms to the map. -/
theorem rowStore_conforms_to_map {pageSize : ℕ} (hmin : 36 ≤ pageSize) (hmax : pageSize < 2 ^ 32)
    (ops : List Op) :
    Conforms Assumption (MapSpec pageSize) ⟨fun _ => none, []⟩
      (trace step (initial pageSize) ops) := by
  apply conforms_of_simulation (R := Refines pageSize)
  · intro s a op href hassume
    exact (step_serves href hassume.2).resolve_left fun hlimit => hassume.1 hlimit.1
  · rw [initial, openStore_new hmin hmax]
    have hs := empty_sound hmin hmax
    exact ⟨empty pageSize, ⟨hs.toValid, by simp [empty], 0, 0, rfl⟩, hs, rfl, rfl, rfl, by simp⟩

theorem rowStore_conforms_to_map_page64 :
    let run : List Op := [.insert [.int 7], .update 0 [.bool true], .delete 0, .get 0,
      .restore ⟨0, [.int 7], true⟩, .reopen, .scan]
    Conforms Assumption (MapSpec 64) ⟨fun _ => none, []⟩ (trace step (initial 64) run) ∧
      (trace step (initial 64) run).map Prod.snd =
        [.rid 0, .ok, .ok, .error rowIsDeleted, .ok, .ok, .rows [⟨0, [.int 7], false⟩]] :=
  ⟨rowStore_conforms_to_map (by decide) (by decide) _, by decide +kernel⟩

end CourseDb.RowStore

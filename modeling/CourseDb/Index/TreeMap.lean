import CourseDb.Index.TreeDelete
import CourseDb.Lib.Conformance

/-! # The B*-tree refines a map

The calls of an index, with closing and reopening of its file among them, are
those of a map from keys to row ids. Keys must be shorter than `2 ^ 32` bytes:
the length of a key is written as a 32-bit integer without a check, so that a
longer key comes back as another one.
-/

namespace CourseDb.BStarTree

open Fallible (read_bind bind_ok bind_error bind_apply)
open BTree Codec

variable {cfg : Config} {s : BStarTree} {m : TreeMetadata} {M : NodeCells} {E : List LeafEntry}
  {maxVariable : ℕ}

section Opening

theorem deserializeMetadata_metadataPage (hok : MetaOk cfg m) (hdegree : cfg.minDegree < 2 ^ 64)
    (hpayload : cfg.maxKeyPayloadBytes < 2 ^ 64) :
    deserializeMetadata cfg (metadataPage cfg m) = .ok m := by
  have hcode : cfg.keyType.code < 2 ^ 32 := by
    cases cfg.keyType <;> decide
  have hdec : Decodes (readMetadata cfg)
      (writeUint32 treeVersion ++ (writeUint32 cfg.keyType.code ++
        (writeUint64 m.rootPageId ++ (writeUint64 m.firstLeafPageId ++ (writeUint64 m.minDegree ++
          (writeUint64 m.maxKeyPayloadBytes ++ writeUint64 m.treeHeight)))))) m := by
    refine (readUint32_decodes (by decide)).bind ((readUint32_decodes hcode).bind ?_)
    rw [if_neg (by simp), if_neg (by simp)]
    refine (readUint64_decodes hok.root_lt).bind ((readUint64_decodes hok.first_lt).bind
      ((readUint64_decodes (hok.degree_eq.trans_lt hdegree)).bind ?_))
    rw [if_neg (by simp [hok.degree_eq])]
    refine (readUint64_decodes (hok.payload_eq.trans_lt hpayload)).bind ?_
    rw [if_neg (by simp [hok.payload_eq])]
    exact (readUint64_decodes hok.height_lt).map (Decodes.pure m)
  have hread := hdec.front treeMetadataMagic
    (List.replicate (cfg.pageSize - (serializeMetadata cfg m).length) 0) rfl
  have hlength : metadataHeaderSize ≤ (metadataPage cfg m).length := by
    rw [metadataPage, fillPage, List.length_append, serializeMetadata_length]
    exact Nat.le_add_right _ _
  unfold deserializeMetadata
  rw [if_neg (Nat.not_lt.mpr hlength), if_neg (by simp [metadataPage, fillPage, serializeMetadata])]
  rw [metadataPage, fillPage]
  nth_rewrite 1 [serializeMetadata]
  rw [List.append_assoc, hread]
  rfl

/-- A tree whose file is open but whose metadata are not loaded. -/
def unloaded (cfg : Config) (pages : List ByteString) : BStarTree :=
  { opened cfg pages (emptyMetadata cfg) with isOpen := false }

theorem onPages_of_eq {α : Type} {x : Fallible Status PageManager α} {r : Except Status α}
    {pm : PageManager} (h : x s.pageManager = (r, pm)) :
    onPages x s = (r.mapError .status, { s with pageManager := pm }) := by
  rw [onPages, h]

section

variable (hv : cfg.Valid) (file : Option PageFile) (hfile : ∀ f ∈ file, f.pageSize = cfg.pageSize)
include hv hfile

theorem openFile_new :
    onPages PageManager.openFile (new cfg file) =
      (.ok (), unloaded cfg ((file.map PageFile.pages).getD [])) := by
  have hpos : cfg.pageSize ≠ 0 := hv.pageSize_pos.ne'
  have hopen : PageManager.openFile (new cfg file).pageManager =
      (.ok (), (unloaded cfg ((file.map PageFile.pages).getD [])).pageManager) := by
    cases file with
    | none => simp [PageManager.openFile, new, PageManager.new, hpos, unloaded, opened]
    | some f =>
      obtain ⟨pageSize, pages⟩ := f
      obtain rfl : pageSize = cfg.pageSize := hfile _ rfl
      simp [PageManager.openFile, new, PageManager.new, hpos, unloaded, opened]
  rw [onPages_of_eq hopen]
  rfl

theorem openTree_new :
    openTree (new cfg file) =
      (loadOrInitialize >>= fun _ => Fallible.modify fun s => { s with isOpen := true })
        (unloaded cfg ((file.map PageFile.pages).getD [])) := by
  have hcfg : (new cfg file).cfg = cfg := rfl
  unfold openTree
  rw [read_bind, if_neg (by simp [new]), hcfg,
    if_neg hv.payload_pos.ne', if_neg (Nat.not_lt.mpr hv.degree),
    bind_ok (openFile_new hv file hfile)]

end

def initial (cfg : Config) : BStarTree :=
  opened cfg [metadataPage cfg (emptyMetadata cfg)] (emptyMetadata cfg)

theorem initial_holds (cfg : Config) : Holds cfg (initial cfg) (emptyMetadata cfg) 0 where
  state_eq := rfl
  metadata_page := rfl
  metadata_ok := ⟨invalidPageId_lt, invalidPageId_lt, Nat.two_pow_pos 64, rfl, rfl⟩
  count_lt := Nat.one_lt_two_pow (by decide)
  nodup := Multiset.nodup_zero
  pos c hc := absurd hc (Multiset.notMem_zero c)
  encodes c hc := absurd hc (Multiset.notMem_zero c)

/-- On a new file `Open` writes the metadata of an empty tree, if the device lets it. -/
theorem openTree_none (hv : cfg.Valid) :
    openTree (new cfg none) =
      if pageFileHeaderSize + cfg.pageSize ≤ maxFileOffset then (.ok (), initial cfg)
      else (.error deviceFull, unloaded cfg []) := by
  rw [openTree_new hv none (by simp), Option.map_none, Option.getD_none]
  have hload : loadOrInitialize (unloaded cfg []) = initializeTree (unloaded cfg []) := rfl
  have halloc : PageManager.allocatePage (unloaded cfg []).pageManager =
      if pageFileHeaderSize + (0 + 1) * cfg.pageSize ≤ maxFileOffset then
        (.ok 0, (unloaded cfg [List.replicate cfg.pageSize 0]).pageManager)
      else (.error PageManager.allocationFailed, (unloaded cfg []).pageManager) :=
    PageManager.allocatePage_eq rfl
  rw [Nat.zero_add, Nat.one_mul] at halloc
  split_ifs at halloc ⊢ with hcap
  · -- The first page is allocated and written.
    have hlength : (metadataPage cfg (emptyMetadata cfg)).length = cfg.pageSize :=
      fillPage_length (by rw [serializeMetadata_length]; exact hv.metadata_fits)
    have hzeros : onPages PageManager.allocatePage (unloaded cfg []) =
        (.ok 0, unloaded cfg [List.replicate cfg.pageSize 0]) := onPages_of_eq halloc
    have hset : setMetadata (fun _ => emptyMetadata cfg)
        (unloaded cfg [List.replicate cfg.pageSize 0]) =
        (.ok (), unloaded cfg [List.replicate cfg.pageSize 0]) := rfl
    have hwrite : writePage 0 (metadataPage cfg (emptyMetadata cfg))
        (unloaded cfg [List.replicate cfg.pageSize 0]) =
        (.ok (), unloaded cfg [metadataPage cfg (emptyMetadata cfg)]) :=
      onPages_of_eq (PageManager.writePage_ok rfl Nat.one_pos hlength)
    have hinit : initializeTree (unloaded cfg []) =
        (.ok (), unloaded cfg [metadataPage cfg (emptyMetadata cfg)]) := by
      unfold initializeTree saveMetadata writeMetadata
      rw [bind_ok hzeros, if_neg (by simp),
        read_bind]
      refine (bind_ok hset).trans ?_
      rw [read_bind,
        if_neg (by rw [serializeMetadata_length]; exact Nat.not_lt.mpr hv.metadata_fits)]
      exact hwrite
    rw [bind_ok (hload.trans hinit)]
    rfl
  · have hinit : initializeTree (unloaded cfg []) = (.error deviceFull, unloaded cfg []) :=
      bind_error (onPages_of_eq halloc)
    exact bind_error (hload.trans hinit)

/-- Opening the file of a tree again gives back the tree. -/
theorem openTree_reopen (hv : cfg.Valid) (hsize : cfg.pageSize < 2 ^ 63) (hs : Holds cfg s m M) :
    openTree (new s.cfg s.pageManager.file) = (.ok (), s) := by
  have hdeg := hv.degree
  have hfits := hv.fits
  have hdegree : cfg.minDegree < 2 ^ 64 := by
    have hle : maxKeysPerNode cfg ≤ maxKeysPerNode cfg * (12 + cfg.maxKeyPayloadBytes) :=
      Nat.le_mul_of_pos_right _ (by omega)
    rw [maxKeysPerNode] at hle hfits
    omega
  have hpayload : cfg.maxKeyPayloadBytes < 2 ^ 64 := by
    have hle : 12 + cfg.maxKeyPayloadBytes ≤
        maxKeysPerNode cfg * (12 + cfg.maxKeyPayloadBytes) :=
      Nat.le_mul_of_pos_left _ (by rw [maxKeysPerNode]; omega)
    omega
  obtain ⟨pages, hpages⟩ : ∃ pages, pages = s.pageManager.pages := ⟨_, rfl⟩
  have hstate : s = opened cfg pages m := by
    rw [hpages]
    exact hs.state_eq
  have hpage : pages[0]? = some (metadataPage cfg m) := by
    rw [hpages]
    exact hs.metadata_page
  have hread : readPage 0 (unloaded cfg pages) = (.ok (metadataPage cfg m), unloaded cfg pages) :=
    onPages_of_eq (PageManager.readPage_some rfl hpage)
  have hload : loadOrInitialize (unloaded cfg pages) =
      (.ok (), { unloaded cfg pages with metadata := m }) := by
    unfold loadOrInitialize
    rw [hread]
    dsimp only
    unfold loadMetadata
    rw [bind_ok hread, read_bind]
    have hparse := deserializeMetadata_metadataPage hs.metadata_ok hdegree hpayload
    exact bind_ok (parsed_ok hparse _)
  rw [hstate]
  refine (openTree_new hv (some ⟨cfg.pageSize, pages⟩) (by simp)).trans ?_
  rw [Option.map_some, Option.getD_some, bind_ok hload]
  rfl

end Opening

/-- The calls of an index. `reopen` closes the file and opens it again. -/
inductive Op where
  | insert (key : Value) (rid : ℕ)
  | delete (key : Value)
  | find (key : Value)
  | reopen

inductive Answer where
  | ok
  | found (rid : Option ℕ)
  | error (e : TreeError)
deriving DecidableEq

def answer {α : Type} (f : α → Answer) : Except TreeError α → Answer
  | .ok a => f a
  | .error e => .error e

def step (s : BStarTree) : Op → Answer × BStarTree
  | .insert key rid => (insert key rid s).map (answer fun _ => .ok) id
  | .delete key => (delete key s).map (answer fun _ => .ok) id
  | .find key => (find key s).map (answer .found) id
  | .reopen => (openTree (new s.cfg s.pageManager.file)).map (answer fun _ => .ok) id

abbrev KeyMap := Value → Option ℕ

/-- The key passes `ValidateKeyType`. -/
def Accepted (cfg : Config) (key : Value) : Prop :=
  (validateKeyType key (new cfg none)).1 = .ok ()

/-- The length of the key survives the 32-bit length field. -/
def Short (key : Value) : Prop := (KeyEncoder.encode key).length < 2 ^ 32

/-- What the callers respect. Row ids are 64-bit integers. -/
def Respects (cfg : Config) : Op → Prop
  | .insert key rid => Accepted cfg key ∧ Short key ∧ rid < 2 ^ 64
  | .delete key => Accepted cfg key ∧ Short key
  | .find key => Accepted cfg key ∧ Short key
  | .reopen => True

/-- What the callers respect, and a device that works. -/
def Assumption (cfg : Config) (_ : KeyMap) (op : Op) (out : Answer) : Prop :=
  out ≠ .error deviceFull ∧ Respects cfg op

/-- The abstract map's answer to each call, and the map it leaves. -/
def MapSpec (a : KeyMap) (op : Op) (out : Answer) (a' : KeyMap) : Prop :=
  match op with
  | .insert key rid =>
    match a key with
    | none => out = .ok ∧ a' = Function.update a key (some rid)
    | some _ => out = .error (.status keyAlreadyExists) ∧ a' = a
  | .delete key =>
    match a key with
    | none => out = .error (.status keyNotFound) ∧ a' = a
    | some _ => out = .ok ∧ a' = Function.update a key none
  | .find key => out = .found (a key) ∧ a' = a
  | .reopen => out = .ok ∧ a' = a

theorem not_mapSpec_deviceFull {a a' : KeyMap} {op : Op} :
    ¬ MapSpec a op (.error deviceFull) a' := by
  unfold MapSpec
  repeat' split
  all_goals simp [keyAlreadyExists, keyNotFound, PageManager.allocationFailed]

/-- The map that the entries of a tree stand for. -/
def ridOf (E : List LeafEntry) : KeyMap := fun key => (lookup LeafEntry.key E key).map LeafEntry.rid

def Refines (cfg : Config) (s : BStarTree) (a : KeyMap) : Prop :=
  ∃ E, Represents cfg s E ∧ ridOf E = a

/-- The call is answered as the map allows, or refused at the limit of the device. -/
def Serves (cfg : Config) (a : KeyMap) (op : Op) (r : Answer × BStarTree) : Prop :=
  (r.1 = .error deviceFull ∧ r.2.pageManager.Full) ∨ Meets (MapSpec a op) (Refines cfg) r

section Steps

variable {a : KeyMap} {key : Value} {rid : ℕ}

theorem Accepted.keyOk (hacc : Accepted cfg key) (hshort : Short key) : KeyOk cfg key := by
  unfold Accepted validateKeyType at hacc
  rw [read_bind] at hacc
  split_ifs at hacc with hnull htype hlength
  · cases hacc
  · cases hacc
  · cases hacc
  · exact ⟨not_not.mp htype, hshort, Nat.not_lt.mp hlength⟩

theorem ridOf_update {E' : List LeafEntry} {entry : Option LeafEntry}
    (hlookup : lookup LeafEntry.key E' = Function.update (lookup LeafEntry.key E) key entry) :
    ridOf E' = Function.update (ridOf E) key (entry.map LeafEntry.rid) := by
  funext k
  rw [ridOf, hlookup]
  by_cases hk : k = key
  · subst hk
    rw [Function.update_self, Function.update_self]
  · rw [Function.update_of_ne hk, Function.update_of_ne hk]
    rfl

section

variable (hv : cfg.Valid) (href : Refines cfg s a)
include hv href

theorem insert_serves (hrespects : Respects cfg (.insert key rid)) :
    Serves cfg a (.insert key rid) (step s (.insert key rid)) := by
  obtain ⟨E, hrep, rfl⟩ := href
  obtain ⟨hacc, hshort, hrid⟩ := hrespects
  have hkey := hacc.keyOk hshort
  change Serves _ _ _ ((insert key rid s).map (answer fun _ => .ok) id)
  unfold Serves MapSpec
  cases hfound : lookup LeafEntry.key E key with
  | some e =>
    rw [insert_present hv hrep hkey hfound]
    refine .inr ⟨ridOf E, ?_, E, hrep, rfl⟩
    simp [ridOf, hfound, answer]
  | none =>
    rcases insert_runs hv hrep hkey hrid hfound
      with ⟨e, s', hrun, rfl, hfull⟩ | ⟨_, s', hrun, E', hrep', hlookup⟩
    · rw [hrun]
      exact .inl ⟨rfl, hfull⟩
    · rw [hrun]
      refine .inr ⟨ridOf E', ?_, E', hrep', rfl⟩
      rw [ridOf_update hlookup]
      simp [ridOf, hfound, answer]

theorem delete_meets (hkey : KeyOk cfg key) :
    Meets (MapSpec a (.delete key)) (Refines cfg) (step s (.delete key)) := by
  obtain ⟨E, hrep, rfl⟩ := href
  change Meets _ _ ((delete key s).map (answer fun _ => .ok) id)
  unfold MapSpec
  cases hfound : lookup LeafEntry.key E key with
  | none =>
    rw [delete_absent hv hrep hkey hfound]
    refine ⟨ridOf E, ?_, E, hrep, rfl⟩
    simp [ridOf, hfound, answer]
  | some e =>
    obtain ⟨E', s', hrun, hrep', hlookup⟩ := delete_present hv hrep hkey hfound
    rw [hrun]
    refine ⟨ridOf E', ?_, E', hrep', rfl⟩
    rw [ridOf_update hlookup]
    simp [ridOf, hfound, answer]

theorem find_meets (hkey : KeyOk cfg key) :
    Meets (MapSpec a (.find key)) (Refines cfg) (step s (.find key)) := by
  obtain ⟨E, hrep, rfl⟩ := href
  change Meets _ _ ((find key s).map (answer .found) id)
  obtain ⟨m, M, hs⟩ := hrep.holds
  rw [find_eq hrep (hkey.validate hv hs)]
  exact ⟨ridOf E, ⟨rfl, rfl⟩, E, hrep, rfl⟩

theorem reopen_meets (hsize : cfg.pageSize < 2 ^ 63) :
    Meets (MapSpec a .reopen) (Refines cfg) (step s .reopen) := by
  obtain ⟨E, hrep, rfl⟩ := href
  obtain ⟨m, M, hs⟩ := hrep.holds
  change Meets _ _ ((openTree (new s.cfg s.pageManager.file)).map (answer fun _ => .ok) id)
  rw [openTree_reopen hv hsize hs]
  exact ⟨ridOf E, ⟨rfl, rfl⟩, E, hrep, rfl⟩

theorem step_serves (hsize : cfg.pageSize < 2 ^ 63) {op : Op} (hrespects : Respects cfg op) :
    Serves cfg a op (step s op) := by
  cases op with
  | insert key rid => exact insert_serves hv href hrespects
  | delete key => exact .inr (delete_meets hv href (hrespects.1.keyOk hrespects.2))
  | find key => exact .inr (find_meets hv href (hrespects.1.keyOk hrespects.2))
  | reopen => exact .inr (reopen_meets hv href hsize)

theorem step_refines (hsize : cfg.pageSize < 2 ^ 63) (op : Op)
    (hassume : Assumption cfg a op (step s op).1) :
    Meets (MapSpec a op) (Refines cfg) (step s op) :=
  (step_serves hv href hsize hassume.2).resolve_left fun hlimit => hassume.1 hlimit.1

/-- No page is refused to a call unless the file cannot grow by one. -/
theorem full_of_deviceFull (hsize : cfg.pageSize < 2 ^ 63) {op : Op} (hrespects : Respects cfg op)
    (hfail : (step s op).1 = .error deviceFull) : (step s op).2.pageManager.Full := by
  rcases step_serves hv href hsize hrespects with hlimit | ⟨a', hspec, -⟩
  · exact hlimit.2
  · rw [hfail] at hspec
    exact absurd hspec not_mapSpec_deviceFull

end

end Steps

theorem resolveMaxEncodedKeySize_ok {keyType : ValueType} {max : ℕ}
    (h : resolveMaxEncodedKeySize keyType maxVariable = .ok max) : 0 < max ∧ keyType ≠ .kNull := by
  unfold resolveMaxEncodedKeySize at h
  split_ifs at h with hzero
  cases keyType with
  | kNull => cases h
  | kInt =>
    cases h
    exact ⟨by decide, by simp⟩
  | kString =>
    cases h
    exact ⟨Nat.pos_of_ne_zero hzero, by simp⟩
  | kBool =>
    cases h
    exact ⟨by decide, by simp⟩

theorem openTree_initial {s₀ : BStarTree} (hv : cfg.Valid)
    (hopen : openTree (new cfg none) = (.ok (), s₀)) :
    cfg.pageSize < 2 ^ 63 ∧ s₀ = initial cfg := by
  rw [openTree_none hv] at hopen
  split_ifs at hopen with hcap
  · cases hopen
    rw [pageFileHeaderSize, maxFileOffset] at hcap
    exact ⟨by omega, rfl⟩
  · cases hopen

/-- `Open` has made a new index, with settings from `Create` and key counts that fit 32 bits. -/
structure Fresh (cfg : Config) (maxVariable : ℕ) (s₀ : BStarTree) : Prop where
  payload : resolveMaxEncodedKeySize cfg.keyType maxVariable = .ok cfg.maxKeyPayloadBytes
  degree : 2 ≤ cfg.minDegree
  fits : nodeHeaderSize + 8 + maxKeysPerNode cfg * (12 + cfg.maxKeyPayloadBytes) ≤ cfg.pageSize
  count : maxKeysPerNode cfg < 2 ^ 32
  opens : openTree (new cfg none) = (.ok (), s₀)

theorem Fresh.initial {s₀ : BStarTree} (h : Fresh cfg maxVariable s₀) :
    cfg.Valid ∧ cfg.pageSize < 2 ^ 63 ∧ s₀ = initial cfg := by
  obtain ⟨hpayload, hkeyType⟩ := resolveMaxEncodedKeySize_ok h.payload
  have hv : cfg.Valid := ⟨h.degree, hpayload, h.fits, h.count, hkeyType⟩
  exact ⟨hv, openTree_initial hv h.opens⟩

theorem initial_represents (cfg : Config) : Represents cfg (initial cfg) [] :=
  .empty (initial_holds cfg) rfl rfl rfl

/-- Every run of an index on a new file conforms to the map, as long as its
keys are short. -/
theorem bstarTree_conforms_to_map {maxVariable : ℕ} {s₀ : BStarTree} (hfresh : Fresh cfg maxVariable s₀)
    (ops : List Op) :
    Conforms (Assumption cfg) MapSpec (fun _ => none) (trace step s₀ ops) := by
  obtain ⟨hv, hsize, rfl⟩ := hfresh.initial
  apply conforms_of_simulation (R := Refines cfg)
  · intro s a op href hassume
    exact step_refines hv href hsize op hassume
  · exact ⟨[], initial_represents cfg, rfl⟩

def smallConfig : Config := ⟨.kInt, 128, 2, 8⟩

theorem smallConfig_valid : smallConfig.Valid :=
  ⟨by decide, by decide, by decide, by decide, by decide⟩

theorem smallConfig_fresh : Fresh smallConfig 256 (initial smallConfig) :=
  ⟨rfl, by decide, by decide, by decide,
    (openTree_none smallConfig_valid).trans (if_pos (by decide))⟩

/-- The fourth key splits the root, and the third deletion merges its two leaves again. -/
def splitAndMerge : List Op :=
  [.insert (.int 1) 10, .insert (.int 2) 20, .insert (.int 3) 30, .insert (.int 4) 40, .reopen,
    .delete (.int 1), .delete (.int 2), .delete (.int 3)]

theorem bstarTree_conforms_to_map_int :
    Conforms (Assumption smallConfig) MapSpec (fun _ => none)
        (trace step (initial smallConfig) splitAndMerge) ∧
      (trace step (initial smallConfig) splitAndMerge).map Prod.snd = List.replicate 8 .ok ∧
      (finalState step (initial smallConfig) (splitAndMerge.take 5)).metadata.treeHeight = 2 ∧
      (finalState step (initial smallConfig) splitAndMerge).metadata.treeHeight = 1 :=
  ⟨bstarTree_conforms_to_map smallConfig_fresh _, by decide +kernel, by decide +kernel,
    by decide +kernel⟩

section LongKey

variable {n : ℕ}

def zeros (n : ℕ) : Value := .string (List.replicate n 0)

theorem leafBytes_zeros (header : NodeHeader) (es : List LeafEntry)
    (hn : writeUint32 n = List.replicate 4 0) :
    leafBytes header (es ++ [⟨zeros n, 0⟩]) =
      serializeNodeHeader { header with type := .kLeaf, keyCount := es.length + 1 } ++
        (es.flatMap serializeLeafEntry ++ List.replicate (12 + n) 0) := by
  have hrid : writeUint64 0 = List.replicate 8 0 := by decide
  have hentry : serializeLeafEntry ⟨zeros n, 0⟩ = List.replicate (12 + n) 0 := by
    simp only [serializeLeafEntry, zeros, KeyEncoder.encode, List.length_replicate, hn, hrid,
      List.replicate_append_replicate]
    congr 1
    omega
  simp only [leafBytes, List.flatMap_append, List.flatMap_cons, List.flatMap_nil, List.append_nil,
    hentry, List.length_append, List.length_singleton]

/-- The page of a key whose length is lost is the page of the empty key. -/
theorem writeLeaf_zeros (hs : Holds cfg s m M) (es : List LeafEntry)
    (hn : writeUint32 n = List.replicate 4 0)
    (hsize : nodeHeaderSize + (es.map fun e => bundleSize e.key).sum + 12 + n ≤ cfg.pageSize)
    (id : ℕ) (header : NodeHeader) :
    writeLeaf id header (es ++ [⟨zeros n, 0⟩]) s = writeLeaf id header (es ++ [⟨zeros 0, 0⟩]) s := by
  obtain ⟨size, hsum⟩ : ∃ size, size = (es.map fun e => bundleSize e.key).sum := ⟨_, rfl⟩
  rw [← hsum] at hsize
  have hlength : ∀ k, k ≤ n → writeUint32 k = List.replicate 4 0 →
      buildLeafPage cfg header (es ++ [⟨zeros k, 0⟩]) =
        .ok (serializeNodeHeader { header with type := .kLeaf, keyCount := es.length + 1 } ++
          (es.flatMap serializeLeafEntry ++
            List.replicate (cfg.pageSize - (nodeHeaderSize + size)) 0)) := by
    intro k hk hbytes
    have hlen : (leafBytes header (es ++ [⟨zeros k, 0⟩])).length =
        nodeHeaderSize + (size + (12 + k)) := by
      rw [leafBytes_length, List.map_append, List.sum_append, ← hsum]
      simp [bundleSize, zeros, KeyEncoder.encode]
    rw [buildLeafPage, if_neg (by omega), fillPage, hlen, leafBytes_zeros header es hbytes,
      List.append_assoc, List.append_assoc, List.replicate_append_replicate]
    congr 4
    omega
  unfold writeLeaf writeBuilt
  rw [read_bind, read_bind, hs.cfg_eq]
  dsimp only
  rw [hlength n le_rfl hn, hlength 0 (Nat.zero_le n) (by decide)]

theorem encode_zeros_length (n : ℕ) : (KeyEncoder.encode (zeros n)).length = n :=
  List.length_replicate

/-- Settings that accept a key of `n` zero bytes, whose length the page does not keep. -/
structure LosesLength (cfg : Config) (n : ℕ) : Prop where
  valid : cfg.Valid
  string : cfg.keyType = .kString
  ne_zero : n ≠ 0
  le : n ≤ cfg.maxKeyPayloadBytes
  wraps : writeUint32 n = List.replicate 4 0
  room : nodeHeaderSize + 12 + n ≤ cfg.pageSize
  device : pageFileHeaderSize + 2 * cfg.pageSize ≤ maxFileOffset

section

variable (h : LosesLength cfg n)
include h

theorem LosesLength.validate (hs : Holds cfg s m M) : validateKeyType (zeros n) s = (.ok (), s) :=
  validateKeyType_ok h.valid hs h.string.symm (by rw [encode_zeros_length]; exact h.le)

theorem LosesLength.empty_ok : KeyOk cfg (zeros 0) := ⟨h.string.symm, by decide, Nat.zero_le _⟩

theorem insert_zeros : ∃ s' m' rootPage, insert (zeros n) 0 (initial cfg) = (.ok (), s') ∧
    Stored cfg s' m' [⟨zeros 0, 0⟩] (Tree.leaf rootPage invalidPageId [⟨zeros 0, 0⟩]) := by
  have hs := initial_holds cfg
  obtain ⟨rootPage, s₁, halloc, hs₁⟩ := hs.allocateNodePage_of_fits h.valid.pageSize_pos h.device
  obtain ⟨s₂, m₂, hwrite, hstored⟩ :=
    writeFirstLeaf_stored h.valid hs₁ h.empty_ok (Nat.two_pow_pos 64)
  refine ⟨s₂, m₂, rootPage, ?_, hstored⟩
  have hsame : writeFirstLeaf rootPage (zeros n) 0 s₁ = writeFirstLeaf rootPage (zeros 0) 0 s₁ := by
    unfold writeFirstLeaf
    rw [bind_apply, bind_apply]
    rw [show [(⟨zeros n, 0⟩ : LeafEntry)] = [] ++ [⟨zeros n, 0⟩] from rfl,
      writeLeaf_zeros hs₁ [] h.wraps (by simpa using h.room), List.nil_append]
  unfold insert insertFirst
  rw [read_bind, hs.isOpen, if_neg (by simp),
    bind_ok (h.validate hs), hs.metadata_eq,
    if_pos (show (emptyMetadata cfg).rootPageId = invalidPageId from rfl), bind_ok halloc, hsame]
  exact hwrite

theorem zeros_lost : Accepted cfg (zeros n) ∧
      trace step (initial cfg) [.insert (zeros n) 0, .find (zeros n)] =
        [(.insert (zeros n) 0, .ok), (.find (zeros n), .found none)] := by
  obtain ⟨s', m', rootPage, hinsert, hstored⟩ := insert_zeros h
  have hfind := find_eq (.tree hstored) (h.validate hstored.holds)
  have habsent : lookup LeafEntry.key [⟨zeros 0, 0⟩] (zeros n) = none := by
    apply lookup_eq_none
    intro e he
    rw [List.mem_singleton.mp he]
    intro heq
    have hlen := congrArg (fun key => (KeyEncoder.encode key).length) heq
    simp only [encode_zeros_length] at hlen
    exact h.ne_zero hlen.symm
  rw [habsent] at hfind
  constructor
  · have hnull : ¬ (zeros n).isNull = true := Bool.false_ne_true
    have hlength : ¬ (KeyEncoder.encode (zeros n)).length > cfg.maxKeyPayloadBytes := by
      rw [encode_zeros_length]
      exact Nat.not_lt.mpr h.le
    have htype : ¬ (zeros n).type ≠ cfg.keyType := not_not.mpr h.string.symm
    unfold Accepted validateKeyType
    rw [read_bind, show (new cfg none).cfg = cfg from rfl, if_neg hnull, if_neg htype,
      if_neg hlength]
    rfl
  · simp only [trace, step, hinsert, Prod.map, id, answer, hfind, Option.map_none]

end

/-- The smallest tree that takes keys of `2 ^ 32` bytes. -/
def longKeyConfig : Config :=
  { keyType := .kString, pageSize := nodeHeaderSize + 8 + 3 * (12 + 2 ^ 32), minDegree := 2,
    maxKeyPayloadBytes := 2 ^ 32 }

theorem longKeyConfig_valid : longKeyConfig.Valid :=
  ⟨by decide, by decide, by decide, by decide, by decide⟩

theorem longKeyConfig_fresh : Fresh longKeyConfig (2 ^ 32) (initial longKeyConfig) :=
  ⟨if_neg (by decide), by decide, by decide, by decide,
    (openTree_none longKeyConfig_valid).trans (if_pos (by decide))⟩

theorem longKeyConfig_losesLength : LosesLength longKeyConfig (2 ^ 32) :=
  ⟨longKeyConfig_valid, rfl, by decide, le_rfl, by decide, by decide, by decide⟩

theorem bstarTree_loses_long_key :
    Fresh longKeyConfig (2 ^ 32) (initial longKeyConfig) ∧
    Accepted longKeyConfig (zeros (2 ^ 32)) ∧
    trace step (initial longKeyConfig) [.insert (zeros (2 ^ 32)) 0, .find (zeros (2 ^ 32))] =
      [(.insert (zeros (2 ^ 32)) 0, .ok), (.find (zeros (2 ^ 32)), .found none)] :=
  ⟨longKeyConfig_fresh, zeros_lost longKeyConfig_losesLength⟩

end LongKey

end CourseDb.BStarTree

import CourseDb.Index.BStarTree
import CourseDb.Index.NodeView
import CourseDb.Lib.BTree.Search

/-! # The pages of a tree as a store of nodes

An open tree holds a multiset of nodes when they are encoded in distinct pages
after the metadata page. Reading, writing and allocating pages are specified on
that multiset; what it does not mention may be anything. A tree of the library
lies in the pages, and `FindPathToLeaf` follows the separators down to the leaf
that decides about the key.
-/

namespace CourseDb.BStarTree

open Fallible (read_bind bind_ok bind_eq_ok)
open Multiset (mem_add mem_singleton singleton_add map_cons nodup_cons)
open BTree

/-- Nodes by the numbers of their pages. -/
abbrev NodeCells := Cells Value LeafEntry

variable {cfg : Config} {page : ByteString}

/-- What a page of the tree holds. The parent pointers are not part of it. -/
inductive Encodes (cfg : Config) : ByteString → View Value LeafEntry → Prop where
  | leaf {header : NodeHeader} {entries : List LeafEntry} (hok : HeaderOk header)
      (h : EntriesOk cfg entries) :
      Encodes cfg (fillPage cfg (leafBytes header entries))
        (.leaf header.isRoot header.nextLeafPageId entries)
  | branch {header : NodeHeader} {node : InternalNodeData} (hok : HeaderOk header)
      (h : BranchOk cfg node) :
      Encodes cfg (fillPage cfg (internalBytes header node))
        (.branch header.isRoot node.separatorKeys node.childPageIds)
  | free (page : ByteString) : Encodes cfg page .free

/-- A tree whose file has the given pages. -/
def opened (cfg : Config) (pages : List ByteString) (m : TreeMetadata) : BStarTree :=
  { cfg, pageManager := ⟨cfg.pageSize, some ⟨cfg.pageSize, pages⟩, true⟩, isOpen := true,
    metadata := m }

def metadataPage (cfg : Config) (m : TreeMetadata) : ByteString :=
  fillPage cfg (serializeMetadata cfg m)

/-- Metadata that its page gives back unchanged. -/
structure MetaOk (cfg : Config) (m : TreeMetadata) : Prop where
  root_lt : m.rootPageId < 2 ^ 64
  first_lt : m.firstLeafPageId < 2 ^ 64
  height_lt : m.treeHeight < 2 ^ 64
  degree_eq : m.minDegree = cfg.minDegree
  payload_eq : m.maxKeyPayloadBytes = cfg.maxKeyPayloadBytes

/-- The pages of an open tree hold the nodes `M`. -/
structure Holds (cfg : Config) (s : BStarTree) (m : TreeMetadata) (M : NodeCells) : Prop where
  state_eq : s = opened cfg s.pageManager.pages m
  metadata_page : s.pageManager.pages[0]? = some (metadataPage cfg m)
  metadata_ok : MetaOk cfg m
  count_lt : s.pageManager.pages.length < 2 ^ 63
  nodup : (M.map Prod.fst).Nodup
  pos : ∀ c ∈ M, 0 < c.1
  encodes : ∀ c ∈ M, ∃ page, s.pageManager.pages[c.1]? = some page ∧ Encodes cfg page c.2

theorem self_mem (c : ℕ × View Value LeafEntry) (M : NodeCells) : c ∈ {c} + M :=
  mem_add.mpr (.inl (Multiset.mem_singleton_self c))

theorem mem_second (c c' : ℕ × View Value LeafEntry) (M : NodeCells) : c ∈ {c'} + ({c} + M) :=
  mem_add.mpr (.inr (self_mem c M))

theorem mem_third (c c' c'' : ℕ × View Value LeafEntry) (M : NodeCells) :
    c ∈ {c''} + ({c'} + ({c} + M)) :=
  mem_add.mpr (.inr (mem_second c c' M))

theorem rotate_cells (a b c : ℕ × View Value LeafEntry) (M : NodeCells) :
    {a} + ({b} + ({c} + M)) = {c} + ({a} + ({b} + M)) := by
  abel

section Reading

variable {s : BStarTree} {m : TreeMetadata} {M M' : NodeCells} {id next : ℕ} {isRoot : Bool}
  {entries : List LeafEntry} {separators : List Value} {children : List ℕ}
  {c : ℕ × View Value LeafEntry}

section

variable (hs : Holds cfg s m M)
include hs

theorem Holds.mono (hle : M' ≤ M) : Holds cfg s m M' where
  state_eq := hs.state_eq
  metadata_page := hs.metadata_page
  metadata_ok := hs.metadata_ok
  count_lt := hs.count_lt
  nodup := Multiset.nodup_of_le (Multiset.map_le_map hle) hs.nodup
  pos c hc := hs.pos c (Multiset.mem_of_le hle hc)
  encodes c hc := hs.encodes c (Multiset.mem_of_le hle hc)

theorem Holds.cast (heq : M = M') : Holds cfg s m M' :=
  heq ▸ hs

theorem Holds.cfg_eq : s.cfg = cfg := by
  rw [hs.state_eq]
  rfl

theorem Holds.metadata_eq : s.metadata = m := by
  rw [hs.state_eq]
  rfl

theorem Holds.isOpen : s.isOpen = true := by
  rw [hs.state_eq]
  rfl

theorem Holds.pageManager_isOpen : s.pageManager.isOpen = true := by
  rw [hs.state_eq]
  rfl

theorem Holds.pageSize_eq : s.pageManager.pageSize = cfg.pageSize := by
  rw [hs.state_eq]
  rfl

theorem Holds.lt_length (hc : c ∈ M) : c.1 < s.pageManager.pages.length := by
  obtain ⟨page, hpage, -⟩ := hs.encodes c hc
  exact (List.getElem?_eq_some_iff.mp hpage).1

theorem Holds.id_lt (hc : c ∈ M) : c.1 < 2 ^ 63 :=
  (hs.lt_length hc).trans hs.count_lt

theorem Holds.card_le : Multiset.card M ≤ s.pageManager.pages.length := by
  have hsub : M.map Prod.fst ≤ Multiset.range s.pageManager.pages.length := by
    apply (Multiset.le_iff_subset hs.nodup).mpr
    intro id hid
    obtain ⟨c, hc, rfl⟩ := Multiset.mem_map.mp hid
    exact Multiset.mem_range.mpr (hs.lt_length hc)
  simpa using Multiset.card_le_card hsub

theorem Holds.readPage {v : View Value LeafEntry} (hmem : (id, v) ∈ M) :
    ∃ page, readPage id s = (.ok page, s) ∧ Encodes cfg page v := by
  obtain ⟨page, hpage, henc⟩ := hs.encodes _ hmem
  refine ⟨page, ?_, henc⟩
  rw [BStarTree.readPage, onPages, PageManager.readPage_some hs.pageManager_isOpen hpage]
  rfl

end

section

variable {s' : BStarTree} {α : Type} {a a' : α} {parse : Config → ByteString → Except Status α}
  {id' : ℕ}

theorem parsed_ok {r : Except Status α} (h : r = .ok a) (s : BStarTree) :
    parsed r s = (.ok a, s) := by
  rw [h]
  rfl

theorem onPages_eq_ok {x : Fallible Status PageManager α} (h : onPages x s = (.ok a, s')) :
    ∃ pm, x s.pageManager = (.ok a, pm) ∧ s' = { s with pageManager := pm } := by
  unfold onPages at h
  rcases hx : x s.pageManager with ⟨e | b, pm⟩
  · simp [hx, Except.mapError] at h
  · simp only [hx, Except.mapError, Prod.mk.injEq, Except.ok.injEq] at h
    exact ⟨pm, by rw [h.1], h.2.symm⟩

theorem parsed_eq_ok {r : Except Status α} (h : parsed r s = (.ok a, s')) :
    r = .ok a ∧ s' = s := by
  cases r with
  | error e => cases h
  | ok b =>
    cases h
    exact ⟨rfl, rfl⟩

theorem readPage_eq_ok (h : readPage id s = (.ok page, s')) :
    s' = s ∧ s.pageManager.pages[id]? = some page := by
  obtain ⟨pm, hread, rfl⟩ := onPages_eq_ok h
  unfold PageManager.readPage at hread
  split_ifs at hread with hopen
  · cases hread
  · cases hpage : s.pageManager.pages[id]? with
    | none => simp [hpage] at hread
    | some data =>
      simp only [hpage, Prod.mk.injEq, Except.ok.injEq] at hread
      obtain ⟨rfl, rfl⟩ := hread
      exact ⟨rfl, rfl⟩

theorem readParsed_eq_ok (h : readParsed parse id s = (.ok a, s')) :
    s' = s ∧ ∃ page, readPage id s = (.ok page, s) ∧ s.pageManager.pages[id]? = some page ∧
      parse s.cfg page = .ok a := by
  obtain ⟨page, s₁, hread, hrest⟩ := bind_eq_ok.mp h
  obtain ⟨rfl, hpage⟩ := readPage_eq_ok hread
  obtain ⟨hparse, rfl⟩ := parsed_eq_ok hrest
  exact ⟨rfl, page, hread, hpage, hparse⟩

theorem readParsed_ok (hread : readPage id s = (.ok page, s)) (hparse : parse s.cfg page = .ok a) :
    readParsed parse id s = (.ok a, s) := by
  unfold readParsed
  rw [bind_ok hread, read_bind]
  exact parsed_ok hparse s

theorem readBoth_ok (h : readParsed parse id s = (.ok a, s))
    (h' : readParsed parse id' s = (.ok a', s)) : readBoth parse id id' s = (.ok (a, a'), s) := by
  obtain ⟨-, page, hread, -, hparse⟩ := readParsed_eq_ok h
  obtain ⟨-, page', hread', -, hparse'⟩ := readParsed_eq_ok h'
  unfold readBoth
  rw [bind_ok hread, bind_ok hread', read_bind, bind_ok (parsed_ok hparse s),
    bind_ok (parsed_ok hparse' s)]
  rfl

theorem readBoth_eq_ok (h : readBoth parse id id' s = (.ok (a, a'), s')) :
    s' = s ∧ readParsed parse id s = (.ok a, s) ∧ readParsed parse id' s = (.ok a', s) := by
  obtain ⟨page, s₁, hread, h₁⟩ := bind_eq_ok.mp h
  obtain ⟨rfl, -⟩ := readPage_eq_ok hread
  obtain ⟨page', s₂, hread', h₂⟩ := bind_eq_ok.mp h₁
  obtain ⟨rfl, -⟩ := readPage_eq_ok hread'
  rw [read_bind] at h₂
  obtain ⟨left, s₃, hleft, h₃⟩ := bind_eq_ok.mp h₂
  obtain ⟨hparse, rfl⟩ := parsed_eq_ok hleft
  obtain ⟨right, s₄, hright, h₄⟩ := bind_eq_ok.mp h₃
  obtain ⟨hparse', rfl⟩ := parsed_eq_ok hright
  cases h₄
  exact ⟨rfl, readParsed_ok hread hparse, readParsed_ok hread' hparse'⟩

end

/-- The header of a leaf page, with which the page can be built again. -/
theorem Encodes.leaf_header (h : Encodes cfg page (.leaf isRoot next entries)) :
    ∃ header, deserializeNodeHeader page = .ok header ∧ header.type = .kLeaf ∧
      parseLeafPage cfg page = .ok (header, entries) ∧ HeaderOk header ∧
      EntriesOk cfg entries ∧ header.isRoot = isRoot ∧ header.nextLeafPageId = next := by
  cases h with
  | leaf hok hentries =>
    exact ⟨_, deserializeNodeHeader_leafPage cfg hok hentries.count_lt, rfl,
      parseLeafPage_build hok hentries, ⟨hok.parent_lt, hok.next_lt⟩, hentries, rfl, rfl⟩

theorem Encodes.branch_header (h : Encodes cfg page (.branch isRoot separators children)) :
    ∃ header, deserializeNodeHeader page = .ok header ∧ header.type = .kInternal ∧
      parseInternalPage cfg page = .ok (header, ⟨separators, children⟩) ∧ HeaderOk header ∧
      BranchOk cfg ⟨separators, children⟩ ∧ header.isRoot = isRoot := by
  cases h with
  | branch hok hnode =>
    exact ⟨_, deserializeNodeHeader_internalPage cfg hok hnode.count_lt, rfl,
      parseInternalPage_build hok hnode, ⟨hok.parent_lt, invalidPageId_lt⟩, hnode, rfl⟩

theorem Holds.readLeaf (hs : Holds cfg s m M) (hmem : (id, .leaf isRoot next entries) ∈ M) :
    ∃ header, readLeaf id s = (.ok (header, entries), s) ∧ EntriesOk cfg entries ∧
      HeaderOk header ∧ header.isRoot = isRoot ∧ header.nextLeafPageId = next := by
  obtain ⟨page, hread, henc⟩ := hs.readPage hmem
  obtain ⟨header, -, -, hparse, hok, hcontent, hheader⟩ := henc.leaf_header
  exact ⟨header, readParsed_ok hread (hs.cfg_eq ▸ hparse), hcontent, hok, hheader⟩

theorem Holds.readInternal (hs : Holds cfg s m M)
    (hmem : (id, .branch isRoot separators children) ∈ M) :
    ∃ header, readInternal id s = (.ok (header, ⟨separators, children⟩), s) ∧
      BranchOk cfg ⟨separators, children⟩ ∧ HeaderOk header ∧ header.isRoot = isRoot := by
  obtain ⟨page, hread, henc⟩ := hs.readPage hmem
  obtain ⟨header, -, -, hparse, hok, hcontent, hheader⟩ := henc.branch_header
  exact ⟨header, readParsed_ok hread (hs.cfg_eq ▸ hparse), hcontent, hok, hheader⟩

theorem Encodes.parseNode_leaf (h : Encodes cfg page (.leaf isRoot next entries)) :
    ∃ header, parseNode cfg page = .ok (.leaf header entries) ∧ header.isRoot = isRoot := by
  cases h with
  | leaf hok hentries => exact ⟨_, parseNode_leafPage hok hentries, rfl⟩

theorem Encodes.parseNode_branch (h : Encodes cfg page (.branch isRoot separators children)) :
    ∃ header, parseNode cfg page = .ok (.internal header ⟨separators, children⟩) ∧
      header.isRoot = isRoot := by
  cases h with
  | branch hok hnode => exact ⟨_, parseNode_internalPage hok hnode, rfl⟩

theorem Holds.readNode_leaf (hs : Holds cfg s m M) (hmem : (id, .leaf isRoot next entries) ∈ M) :
    ∃ header, readNode id s = (.ok (.leaf header entries), s) ∧ header.isRoot = isRoot := by
  obtain ⟨page, hread, henc⟩ := hs.readPage hmem
  obtain ⟨header, hparse, hroot⟩ := henc.parseNode_leaf
  exact ⟨header, readParsed_ok hread (hs.cfg_eq ▸ hparse), hroot⟩

theorem Holds.readNode_branch (hs : Holds cfg s m M)
    (hmem : (id, .branch isRoot separators children) ∈ M) :
    ∃ header, readNode id s = (.ok (.internal header ⟨separators, children⟩), s) ∧
      header.isRoot = isRoot := by
  obtain ⟨page, hread, henc⟩ := hs.readPage hmem
  obtain ⟨header, hparse, hroot⟩ := henc.parseNode_branch
  exact ⟨header, readParsed_ok hread (hs.cfg_eq ▸ hparse), hroot⟩

end Reading

section Writing

variable {s : BStarTree} {m : TreeMetadata} {M : NodeCells} {id : ℕ} {v : View Value LeafEntry}
  {header : NodeHeader} {entries : List LeafEntry} {node : InternalNodeData}

theorem fillPage_length {bytes : ByteString} (h : bytes.length ≤ cfg.pageSize) :
    (fillPage cfg bytes).length = cfg.pageSize := by
  rw [fillPage, List.length_append, List.length_replicate]
  omega

theorem Holds.writePage (hs : Holds cfg s m ({(id, v)} + M)) {v' : View Value LeafEntry}
    (hlen : page.length = cfg.pageSize) (henc : Encodes cfg page v') :
    ∃ s', writePage id page s = (.ok (), s') ∧ Holds cfg s' m ({(id, v')} + M) := by
  have hmem : (id, v) ∈ {(id, v)} + M := self_mem _ _
  have hlt := hs.lt_length hmem
  have hpos : 0 < id := hs.pos _ hmem
  have hnodup := hs.nodup
  rw [singleton_add, map_cons, nodup_cons] at hnodup
  refine ⟨opened cfg (s.pageManager.pages.set id page) m, ?_, rfl, ?_, hs.metadata_ok, ?_, ?_, ?_, ?_⟩
  · rw [BStarTree.writePage, onPages,
      PageManager.writePage_ok hs.pageManager_isOpen hlt (hlen.trans hs.pageSize_eq.symm)]
    conv_lhs => rw [hs.state_eq]
    rfl
  · change (s.pageManager.pages.set id page)[0]? = _
    rw [List.getElem?_set_ne (by omega), hs.metadata_page]
  · change (s.pageManager.pages.set id page).length < _
    rw [List.length_set]
    exact hs.count_lt
  · rw [singleton_add, map_cons]
    exact nodup_cons.mpr hnodup
  · intro c hc
    rcases mem_add.mp hc with hc | hc
    · rw [mem_singleton.mp hc]
      exact hpos
    · exact hs.pos c (by simp [hc])
  · intro c hc
    change ∃ p, (s.pageManager.pages.set id page)[c.1]? = some p ∧ _
    rcases mem_add.mp hc with hc | hc
    · rw [mem_singleton.mp hc]
      exact ⟨page, List.getElem?_set_self hlt, henc⟩
    · have hne : id ≠ c.1 := by
        intro heq
        exact hnodup.1 (Multiset.mem_map.mpr ⟨c, hc, heq.symm⟩)
      rw [List.getElem?_set_ne hne]
      exact hs.encodes c (mem_add.mpr (.inr hc))

theorem writeBuilt_ok {s' : BStarTree} {build : Config → Except Status ByteString}
    (hs : Holds cfg s m M) (hbuild : build cfg = .ok page)
    (hwrite : BStarTree.writePage id page s = (.ok (), s')) :
    writeBuilt build id s = (.ok (), s') := by
  unfold writeBuilt
  rw [read_bind, hs.cfg_eq, bind_ok (parsed_ok hbuild s)]
  exact hwrite

section

variable (hs : Holds cfg s m ({(id, v)} + M)) (hok : HeaderOk header)
include hs hok

theorem Holds.writeLeafPage (hentries : EntriesOk cfg entries) :
    ∃ s', BStarTree.writePage id (fillPage cfg (leafBytes header entries)) s = (.ok (), s') ∧
      Holds cfg s' m ({(id, .leaf header.isRoot header.nextLeafPageId entries)} + M) := by
  have hlen : (fillPage cfg (leafBytes header entries)).length = cfg.pageSize :=
    fillPage_length (by rw [leafBytes_length]; exact hentries.size_le)
  exact hs.writePage hlen (Encodes.leaf hok hentries)

theorem Holds.writeInternalPage (hnode : BranchOk cfg node) :
    ∃ s', BStarTree.writePage id (fillPage cfg (internalBytes header node)) s = (.ok (), s') ∧
      Holds cfg s' m
        ({(id, .branch header.isRoot node.separatorKeys node.childPageIds)} + M) := by
  have hlen : (fillPage cfg (internalBytes header node)).length = cfg.pageSize :=
    fillPage_length (by rw [internalBytes_length hnode.children]; exact hnode.size_le)
  exact hs.writePage hlen (Encodes.branch hok hnode)

theorem Holds.writeLeaf (hentries : EntriesOk cfg entries) :
    ∃ s', writeLeaf id header entries s = (.ok (), s') ∧
      Holds cfg s' m ({(id, .leaf header.isRoot header.nextLeafPageId entries)} + M) := by
  obtain ⟨s', hwrite, hs'⟩ := hs.writeLeafPage hok hentries
  exact ⟨s', writeBuilt_ok hs (buildLeafPage_ok header hentries) hwrite, hs'⟩

theorem Holds.writeInternal (hnode : BranchOk cfg node) :
    ∃ s', writeInternal id header node s = (.ok (), s') ∧
      Holds cfg s' m
        ({(id, .branch header.isRoot node.separatorKeys node.childPageIds)} + M) := by
  obtain ⟨s', hwrite, hs'⟩ := hs.writeInternalPage hok hnode
  exact ⟨s', writeBuilt_ok hs (buildInternalPage_ok header hnode) hwrite, hs'⟩

end

theorem Holds.allocateNodePage_of_fits (hs : Holds cfg s m M) (hsize : 0 < cfg.pageSize)
    (hcap : pageFileHeaderSize + (s.pageManager.pages.length + 1) * cfg.pageSize ≤ maxFileOffset) :
    ∃ id s', BStarTree.allocateNodePage s = (.ok id, s') ∧ Holds cfg s' m ({(id, .free)} + M) := by
  have hpos : 0 < s.pageManager.pages.length := (List.getElem?_eq_some_iff.mp hs.metadata_page).1
  have hcount : s.pageManager.pages.length + 1 < 2 ^ 63 := by
    have hmul := Nat.le_mul_of_pos_right (s.pageManager.pages.length + 1) hsize
    rw [pageFileHeaderSize, maxFileOffset] at hcap
    omega
  refine ⟨s.pageManager.pages.length,
    opened cfg (s.pageManager.pages ++ [List.replicate cfg.pageSize 0]) m,
    ?_, rfl, ?_, hs.metadata_ok, ?_, ?_, ?_, ?_⟩
  · rw [BStarTree.allocateNodePage, onPages, PageManager.allocatePage_eq hs.pageManager_isOpen,
      hs.pageSize_eq, if_pos hcap]
    conv_lhs => rw [hs.state_eq]
    rfl
  · change (s.pageManager.pages ++ [List.replicate cfg.pageSize 0])[0]? = _
    rw [List.getElem?_append_left hpos, hs.metadata_page]
  · change (s.pageManager.pages ++ [List.replicate cfg.pageSize 0]).length < _
    simpa using hcount
  · rw [singleton_add, map_cons]
    refine nodup_cons.mpr ⟨?_, hs.nodup⟩
    intro hmem
    obtain ⟨c, hc, heq⟩ := Multiset.mem_map.mp hmem
    exact absurd (hs.lt_length hc) (by rw [heq]; exact lt_irrefl _)
  · intro c hc
    rcases mem_add.mp hc with hc | hc
    · rw [mem_singleton.mp hc]
      exact hpos
    · exact hs.pos c hc
  · intro c hc
    change ∃ p, (s.pageManager.pages ++ [List.replicate cfg.pageSize 0])[c.1]? = some p ∧ _
    rcases mem_add.mp hc with hc | hc
    · rw [mem_singleton.mp hc]
      exact ⟨_, List.getElem?_concat_length, Encodes.free _⟩
    · rw [List.getElem?_append_left (hs.lt_length hc)]
      exact hs.encodes c hc

/-- The one error that the device may cause. -/
abbrev deviceFull : TreeError := .status PageManager.allocationFailed

/-- A page was refused by a device that has no room for one. -/
def OutOfPages (e : TreeError) (s : BStarTree) : Prop := e = deviceFull ∧ s.pageManager.Full

theorem Holds.allocateNodePage (hs : Holds cfg s m M) (hsize : 0 < cfg.pageSize) :
    Fallible.Runs OutOfPages allocateNodePage s fun id s' =>
      Holds cfg s' m ({(id, .free)} + M) := by
  by_cases hcap : pageFileHeaderSize + (s.pageManager.pages.length + 1) * cfg.pageSize ≤ maxFileOffset
  · obtain ⟨id, s', halloc, hs'⟩ := hs.allocateNodePage_of_fits hsize hcap
    exact Fallible.Runs.of_ok halloc hs'
  · refine .inl ⟨deviceFull, s, ?_, rfl, ?_⟩
    · rw [BStarTree.allocateNodePage, onPages, PageManager.allocatePage_eq hs.pageManager_isOpen,
        hs.pageSize_eq, if_neg hcap]
      rfl
    · rw [PageManager.Full, hs.pageSize_eq]
      exact not_le.mp hcap

theorem serializeMetadata_length (cfg : Config) (m : TreeMetadata) :
    (serializeMetadata cfg m).length = metadataHeaderSize := by
  simp [serializeMetadata, treeMetadataMagic, metadataHeaderSize]

theorem Holds.saveMetadata (hs : Holds cfg s m M) {f : TreeMetadata → TreeMetadata}
    (hok : MetaOk cfg (f m)) (hsize : metadataHeaderSize ≤ cfg.pageSize) :
    ∃ s', saveMetadata f s = (.ok (), s') ∧ Holds cfg s' (f m) M := by
  have hpos : 0 < s.pageManager.pages.length := (List.getElem?_eq_some_iff.mp hs.metadata_page).1
  have hlen : (metadataPage cfg (f m)).length = cfg.pageSize :=
    fillPage_length (by rw [serializeMetadata_length]; exact hsize)
  have hset : setMetadata f s = (.ok (), opened cfg s.pageManager.pages (f m)) := by
    conv_lhs => rw [hs.state_eq]
    rfl
  have hwrite : BStarTree.writePage 0 (metadataPage cfg (f m))
      (opened cfg s.pageManager.pages (f m)) =
      (.ok (), opened cfg (s.pageManager.pages.set 0 (metadataPage cfg (f m))) (f m)) := by
    have hpage : PageManager.writePage 0 (metadataPage cfg (f m))
        (opened cfg s.pageManager.pages (f m)).pageManager = _ :=
      PageManager.writePage_ok rfl hpos hlen
    rw [BStarTree.writePage, onPages, hpage]
    rfl
  refine ⟨opened cfg (s.pageManager.pages.set 0 (metadataPage cfg (f m))) (f m),
    ?_, rfl, ?_, hok, ?_, hs.nodup, hs.pos, ?_⟩
  · unfold BStarTree.saveMetadata writeMetadata
    rw [bind_ok hset, read_bind,
      if_neg (by rw [serializeMetadata_length]; exact Nat.not_lt.mpr hsize)]
    exact hwrite
  · exact List.getElem?_set_self hpos
  · change (s.pageManager.pages.set 0 _).length < _
    rw [List.length_set]
    exact hs.count_lt
  · intro c hc
    change ∃ p, (s.pageManager.pages.set 0 _)[c.1]? = some p ∧ _
    rw [List.getElem?_set_ne (Nat.ne_of_lt (hs.pos c hc))]
    exact hs.encodes c hc

/-- Rewriting a child writes back the node that was there. -/
theorem Holds.rewriteChildParent (hs : Holds cfg s m ({(id, v)} + M)) (hv : v ≠ .free)
    (parent : ℕ) :
    ∃ s', rewriteChildParent id parent s = (.ok (), s') ∧ Holds cfg s' m ({(id, v)} + M) := by
  have hmem : (id, v) ∈ {(id, v)} + M := self_mem _ _
  obtain ⟨page, hread, henc⟩ := hs.readPage hmem
  unfold BStarTree.rewriteChildParent
  rw [bind_ok hread, read_bind, hs.cfg_eq]
  cases v with
  | leaf isRoot next entries =>
    obtain ⟨header, hheader, htype, hparse, hok, hentries, rfl, rfl⟩ := henc.leaf_header
    obtain ⟨s', hwrite, hs'⟩ := hs.writeLeaf hok hentries
    refine ⟨s', ?_, hs'⟩
    rw [bind_ok (parsed_ok hheader s)]
    simp only [htype]
    rw [bind_ok (parsed_ok hparse s)]
    exact hwrite
  | branch isRoot separators children =>
    obtain ⟨header, hheader, htype, hparse, hok, hnode, rfl⟩ := henc.branch_header
    obtain ⟨s', hwrite, hs'⟩ := hs.writeInternal hok hnode
    refine ⟨s', ?_, hs'⟩
    rw [bind_ok (parsed_ok hheader s)]
    simp only [htype]
    rw [bind_ok (parsed_ok hparse s)]
    exact hwrite
  | free => exact absurd rfl hv

theorem Holds.rewriteChildParent_of_mem (hs : Holds cfg s m M) (hv : v ≠ .free)
    (hmem : (id, v) ∈ M) (parent : ℕ) :
    ∃ s', BStarTree.rewriteChildParent id parent s = (.ok (), s') ∧ Holds cfg s' m M := by
  obtain ⟨M', rfl⟩ := Multiset.exists_cons_of_mem hmem
  rw [← singleton_add] at hs ⊢
  exact hs.rewriteChildParent hv parent

theorem Holds.rewriteChildrenParent (hs : Holds cfg s m M) (parent : ℕ) {children : List ℕ}
    (hmem : ∀ child ∈ children, ∃ v ≠ .free, (child, v) ∈ M) :
    ∃ s', rewriteChildrenParent parent children s = (.ok (), s') ∧ Holds cfg s' m M := by
  induction children generalizing s with
  | nil => exact ⟨s, rfl, hs⟩
  | cons child children ih =>
    obtain ⟨v, hv, hchild⟩ := hmem child List.mem_cons_self
    obtain ⟨s₁, hrewrite, hs₁⟩ := hs.rewriteChildParent_of_mem hv hchild parent
    obtain ⟨s₂, hrest, hs₂⟩ := ih hs₁ fun c hc => hmem c (List.mem_cons_of_mem _ hc)
    exact ⟨s₂, (bind_ok hrewrite).trans hrest, hs₂⟩

end Writing

open Fallible (read_bind bind_ok)
open BTree

/-- What the pages of the index represent. -/
abbrev IndexTree := Tree Value LeafEntry

abbrev IndexSiblings := Siblings Value LeafEntry

abbrev IndexCtx := Ctx Value LeafEntry

/-- A configuration under which every node of the tree fits its page. -/
structure Config.Valid (cfg : Config) : Prop where
  degree : 2 ≤ cfg.minDegree
  payload_pos : 0 < cfg.maxKeyPayloadBytes
  fits : nodeHeaderSize + 8 + maxKeysPerNode cfg * (12 + cfg.maxKeyPayloadBytes) ≤ cfg.pageSize
  count_lt : maxKeysPerNode cfg < 2 ^ 32
  keyType_ne : cfg.keyType ≠ .kNull

variable {cfg : Config} {s : BStarTree} {m : TreeMetadata} {M : NodeCells} {h H : ℕ}
  {entries : List LeafEntry}

theorem Config.Valid.metadata_fits (hv : cfg.Valid) : metadataHeaderSize ≤ cfg.pageSize := by
  have hfits := hv.fits
  have hpos := hv.payload_pos
  have hdeg := hv.degree
  have hmul : 3 * 13 ≤ maxKeysPerNode cfg * (12 + cfg.maxKeyPayloadBytes) := by
    apply Nat.mul_le_mul
    · rw [maxKeysPerNode]
      omega
    · omega
  simp only [nodeHeaderSize, metadataHeaderSize] at *
  omega

theorem Config.Valid.pageSize_pos (hv : cfg.Valid) : 0 < cfg.pageSize :=
  Nat.lt_of_lt_of_le (by decide) hv.metadata_fits

theorem sum_bundleSize_le (hv : cfg.Valid) {keys : List Value}
    (hlen : keys.length ≤ maxKeysPerNode cfg) (hkeys : ∀ key ∈ keys, KeyOk cfg key) :
    (keys.map bundleSize).sum ≤ cfg.pageSize - (nodeHeaderSize + 8) := by
  have hsum := sum_bundleSize_le_mul fun key hkey => (hkeys key hkey).length_le
  have hmul := Nat.mul_le_mul_right (12 + cfg.maxKeyPayloadBytes) hlen
  have hfits := hv.fits
  omega

/-- An entry that a leaf page returns unchanged. -/
def EntryOk (cfg : Config) (e : LeafEntry) : Prop := KeyOk cfg e.key ∧ e.rid < 2 ^ 64

theorem EntriesOk.entry_ok (hok : EntriesOk cfg entries) : ∀ e ∈ entries, EntryOk cfg e :=
  fun e he => ⟨hok.keys_ok e he, hok.rids_lt e he⟩

theorem EntriesOk.of_entries (hv : cfg.Valid) (hlen : entries.length ≤ maxKeysPerNode cfg)
    (hok : ∀ e ∈ entries, EntryOk cfg e) : EntriesOk cfg entries := by
  refine ⟨hlen.trans_lt hv.count_lt, fun e he => (hok e he).1, fun e he => (hok e he).2, ?_⟩
  have hsum : ((entries.map LeafEntry.key).map bundleSize).sum ≤
      cfg.pageSize - (nodeHeaderSize + 8) := by
    apply sum_bundleSize_le hv
    · simpa using hlen
    · intro key hkey
      obtain ⟨e, he, rfl⟩ := List.mem_map.mp hkey
      exact (hok e he).1
  rw [List.map_map] at hsum
  have hfits := hv.fits
  change nodeHeaderSize + (entries.map (bundleSize ∘ LeafEntry.key)).sum ≤ cfg.pageSize
  omega

theorem BranchOk.of_keys (hv : cfg.Valid) {node : InternalNodeData}
    (hchildren : node.childPageIds.length = node.separatorKeys.length + 1)
    (hlen : node.separatorKeys.length ≤ maxKeysPerNode cfg)
    (hkeys : ∀ key ∈ node.separatorKeys, KeyOk cfg key)
    (hids : ∀ id ∈ node.childPageIds, id < 2 ^ 64) : BranchOk cfg node := by
  refine ⟨hlen.trans_lt hv.count_lt, hchildren, hkeys, hids, ?_⟩
  have hsum := sum_bundleSize_le hv hlen hkeys
  have hfits := hv.fits
  omega

theorem exists_entryPosition (hs : entries.Pairwise fun a b => a.key < b.key) (key : Value) :
    ∃ x y, entries = x ++ y ∧ findEntryPosition entries key = x.length ∧ (∀ e ∈ x, e.key < key) ∧
      (∀ e ∈ y, key ≤ e.key) ∧ ∀ e ∈ y.tail, key < e.key := by
  obtain ⟨x, y, heq, hx, hlt, hle, htail⟩ := exists_position hs key
  refine ⟨x, y, heq, ?_, hlt, hle, htail⟩
  rw [hx, findEntryPosition]
  simp only [Value.less_eq_decide]

theorem entryAt_eq_lookup (hs : entries.Pairwise fun a b => a.key < b.key) (key : Value) :
    (entries[findEntryPosition entries key]?.filter fun entry => entry.key = key) =
      lookup LeafEntry.key entries key := by
  obtain ⟨x, y, rfl, hpos, hx, -, htail⟩ := exists_entryPosition hs key
  have hxnone : lookup LeafEntry.key x key = none := lookup_eq_none fun e he => ne_of_lt (hx e he)
  rw [hpos, List.getElem?_append_right le_rfl, Nat.sub_self]
  cases y with
  | nil => simpa using hxnone.symm
  | cons e y =>
    have hynone : lookup LeafEntry.key y key = none :=
      lookup_eq_none fun e he => ne_of_gt (htail e he)
    simp only [lookup, List.find?_append, List.find?_cons] at hxnone hynone ⊢
    by_cases he : e.key = key
    · simp [hxnone, he, Option.filter]
    · simp [hxnone, hynone, he, Option.filter]

/-- The path that a search has taken to the hole, deepest link first. -/
def searchPath {H : ℕ} : {h : ℕ} → IndexCtx h H → List SearchPathEntry
  | _, .top => []
  | _, .frame id left _ up => ⟨id, left.length⟩ :: searchPath up

theorem mem_append_takeWhile {α : Type} {p : α → Bool} {a b : List α}
    (hlen : ((a ++ b).takeWhile p).length = a.length) :
    (∀ x ∈ a, p x = true) ∧ ∀ x ∈ b.head?, p x = false := by
  have hsplit := List.takeWhile_append_dropWhile (p := p) (l := a ++ b)
  obtain ⟨ha, hb⟩ := List.append_inj hsplit hlen
  constructor
  · intro x hx
    rw [← ha] at hx
    exact List.mem_takeWhile_imp hx
  · intro x hx
    rw [← hb] at hx
    obtain ⟨y, hy⟩ : ∃ y, (a ++ b).dropWhile p = x :: y := by
      cases hd : (a ++ b).dropWhile p with
      | nil => simp [hd] at hx
      | cons z y => exact ⟨y, by simpa [hd] using hx⟩
    have hnot := List.head_dropWhile_not (p := p) (l := a ++ b) (w := by simp [hy])
    simpa [hy] using hnot

/-- The child that `ChooseChildIndex` picks is where a search leads. -/
theorem exists_chosen_child (t : IndexTree (h + 1)) (C : IndexCtx (h + 1) H) (key : Value)
    (hC : C.Routed key) :
    ∃ left c right, t = Tree.fill t.rootId left c right ∧
      chooseChildIndex ⟨t.separators, t.children⟩ key = left.length ∧
      (Ctx.frame t.rootId left right C).Routed key := by
  obtain ⟨idx, hidx⟩ : ∃ idx, chooseChildIndex ⟨t.separators, t.children⟩ key = idx := ⟨_, rfl⟩
  have hle : idx ≤ t.keyCount := by
    rw [← hidx, ← Tree.separators_length]
    exact (List.takeWhile_prefix _).length_le
  obtain ⟨left, c, right, hlen, heq⟩ := t.exists_fill hle
  refine ⟨left, c, right, heq, hidx.trans hlen.symm, ?_⟩
  have hseps : t.separators = (left.map Prod.fst).reverse ++ right.map Prod.fst := by
    rw [heq, Tree.separators_fill]
  rw [chooseChildIndex, hseps] at hidx
  obtain ⟨hleft, hright⟩ := mem_append_takeWhile (hidx.trans (by simp [hlen]))
  refine ⟨?_, ?_, hC⟩
  · intro p hp
    have hnot := hleft p.1 (by simpa using ⟨p.2, hp⟩)
    simpa [Value.less_eq_decide] using hnot
  · intro p hp
    have hhead : p.1 ∈ (right.map Prod.fst).head? := by
      rw [List.head?_map]
      exact Option.mem_map_of_mem Prod.fst hp
    have hlt := hright p.1 hhead
    simpa [Value.less_eq_decide] using hlt

theorem descend_eq (key : Value) {C : IndexCtx h H} {t : IndexTree h} {fuel : ℕ}
    (hs : Holds cfg s m ((C.plug t).cells true)) (hC : C.Routed key) (hfuel : h < fuel) :
    ∃ (C' : IndexCtx 0 H) (id next : ℕ) (entries : List LeafEntry),
      C'.plug (Tree.leaf id next entries) = C.plug t ∧ C'.Routed key ∧
      descend key fuel t.rootId (searchPath C) s =
        (.ok (searchPath C', id, (entries[findEntryPosition entries key]?.filter
          fun entry => entry.key = key).map LeafEntry.rid), s) := by
  induction h generalizing fuel with
  | zero =>
    obtain ⟨id, next, entries, rfl⟩ := t.exists_leaf
    have hmem : (id, .leaf C.isTop next entries) ∈
        (C.plug (Tree.leaf id next entries)).cells true := by
      rw [Ctx.cells_plug]
      exact mem_add.mpr (.inr (Tree.rootId_mem_cells _ _))
    obtain ⟨header, hread, -⟩ := hs.readNode_leaf hmem
    obtain ⟨fuel, rfl⟩ : ∃ n, fuel = n + 1 := ⟨fuel - 1, by omega⟩
    exact ⟨C, id, next, entries, rfl, hC, bind_ok hread⟩
  | succ h ih =>
    obtain ⟨left, c, right, heq, hidx, hrouted⟩ := exists_chosen_child t C key hC
    have hmem : (t.rootId, .branch C.isTop t.separators t.children) ∈ (C.plug t).cells true := by
      rw [Ctx.cells_plug]
      exact mem_add.mpr (.inr (Tree.rootId_mem_cells _ _))
    obtain ⟨header, hread, -⟩ := hs.readNode_branch hmem
    obtain ⟨fuel, rfl⟩ : ∃ n, fuel = n + 1 := ⟨fuel - 1, by omega⟩
    have hplug : (Ctx.frame t.rootId left right C).plug c = C.plug t := by
      rw [Ctx.plug, ← heq]
    have hchild : t.children.getD left.length invalidPageId = c.rootId := by
      rw [heq, Tree.children_fill]
      simp
    rw [← hplug] at hs ⊢
    obtain ⟨C', id, next, entries, hplug', hrouted', hrun⟩ := ih hs hrouted (by omega : h < fuel)
    refine ⟨C', id, next, entries, hplug', hrouted', ?_⟩
    rw [descend, bind_ok hread]
    dsimp only
    rw [hidx, hchild]
    exact hrun

theorem findPathToLeaf_eq (key : Value) {T : IndexTree H}
    (hs : Holds cfg s m (T.cells true)) (hroot : m.rootPageId = T.rootId) :
    ∃ (C : IndexCtx 0 H) (id next : ℕ) (entries : List LeafEntry),
      C.plug (Tree.leaf id next entries) = T ∧ C.Routed key ∧
      findPathToLeaf key s =
        (.ok (searchPath C, id, (entries[findEntryPosition entries key]?.filter
          fun entry => entry.key = key).map LeafEntry.rid), s) := by
  have hlt : T.rootId < 2 ^ 63 := hs.id_lt (Tree.rootId_mem_cells true T)
  have hne : T.rootId ≠ invalidPageId := by
    rw [invalidPageId]
    omega
  have hfuel : H < s.pageManager.pages.length + 1 :=
    ((T.height_lt_card_cells true).trans_le hs.card_le).trans (Nat.lt_succ_self _)
  obtain ⟨C, id, next, entries, hplug, hrouted, hrun⟩ :=
    descend_eq key (C := .top) (t := T) hs trivial hfuel
  refine ⟨C, id, next, entries, hplug, hrouted, ?_⟩
  unfold findPathToLeaf
  rw [read_bind, hs.metadata_eq, hroot, if_neg hne]
  exact hrun

end CourseDb.BStarTree

import CourseDb.Index.TreeShape

/-! # Links in node headers

The header of a node names its parent and, in a leaf, the next leaf. What a
successful operation does to these links is read off from the pages that it
writes, whatever else they hold.
-/

namespace CourseDb.BStarTree

open Fallible (read_bind bind_ok bind_eq_ok)
open BTree Codec

variable {cfg : Config} {s s' : BStarTree} {m : TreeMetadata} {M : NodeCells} {H : ℕ}
  {E : List LeafEntry}

/-- What a header says about the place of its node. An internal node has no next leaf. -/
structure Link where
  type : NodeType
  parent : ℕ
  next : ℕ

def NodeHeader.link (header : NodeHeader) : Link :=
  { type := header.type
    parent := header.parentPageId
    next := if header.type = .kLeaf then header.nextLeafPageId else invalidPageId }

def leafLink (header : NodeHeader) : Link := ⟨.kLeaf, header.parentPageId, header.nextLeafPageId⟩

def internalLink (header : NodeHeader) : Link := ⟨.kInternal, header.parentPageId, invalidPageId⟩

/-- The link in a page of the file, if the page has a node header. -/
def linkAt (s : BStarTree) (id : ℕ) : Option Link :=
  s.pageManager.pages[id]?.bind fun page =>
    (deserializeNodeHeader page).toOption.map NodeHeader.link

section Headers

variable {header : NodeHeader}

theorem readNodeHeader_consumes : Consumes readNodeHeader fun header _ => HeaderOk header := by
  refine readUint32_consumes.bind ?_
  rintro rawType w -
  refine readUint32_consumes.bind ?_
  rintro keyCount w -
  refine readUint64_consumes.bind ?_
  rintro parent w ⟨-, hparent⟩
  refine readUint64_consumes.bind ?_
  rintro next w ⟨-, hnext⟩
  refine (Consumes.uint unexpectedEnd 1).bind ?_
  rintro isRoot w -
  split
  · exact Consumes.fail _
  · exact Consumes.pure ⟨hparent, hnext⟩

theorem deserializeNodeHeader_ok {page : ByteString} (h : deserializeNodeHeader page = .ok header) :
    HeaderOk header := by
  unfold deserializeNodeHeader at h
  split_ifs at h with hsize hmagic
  cases hread : readNodeHeader page treeNodeMagic.length with
  | error e => simp [hread, Except.map] at h
  | ok p =>
    obtain ⟨header', off⟩ := p
    obtain rfl : header' = header := by simpa [hread, Except.map] using h
    have hoff : treeNodeMagic.length ≤ page.length := by
      rw [nodeHeaderSize] at hsize
      exact le_trans (by decide) (not_lt.mp hsize)
    obtain ⟨w, -, -, -, hok⟩ := readNodeHeader_consumes _ _ _ _ hread hoff
    exact hok

/-- The links of a header survive whatever its key count is cut to. -/
theorem deserializeNodeHeader_link (header : NodeHeader) (hok : HeaderOk header)
    (post : ByteString) :
    (deserializeNodeHeader (serializeNodeHeader header ++ post)).toOption.map NodeHeader.link =
      some header.link := by
  have hcut : serializeNodeHeader header =
      serializeNodeHeader { header with keyCount := header.keyCount % 2 ^ 32 } := by
    have hcount : writeUint32 header.keyCount = writeUint32 (header.keyCount % 2 ^ 32) :=
      (leBytes_mod 4 header.keyCount).symm
    rw [serializeNodeHeader, hcount]
    rfl
  have hread := deserializeNodeHeader_append
    (h := { header with keyCount := header.keyCount % 2 ^ 32 }) ⟨hok.parent_lt, hok.next_lt⟩
    (Nat.mod_lt _ (by decide)) post
  rw [hcut, hread]
  rfl

theorem link_leafPage (cfg : Config) (hok : HeaderOk header) (entries : List LeafEntry) :
    (deserializeNodeHeader (fillPage cfg (leafBytes header entries))).toOption.map
      NodeHeader.link = some (leafLink header) := by
  obtain ⟨pad, hpage⟩ := leafPage_eq cfg header entries
  rw [hpage]
  exact deserializeNodeHeader_link { header with type := .kLeaf, keyCount := entries.length }
    ⟨hok.parent_lt, hok.next_lt⟩ _

theorem link_internalPage (cfg : Config) (hok : HeaderOk header) (node : InternalNodeData) :
    (deserializeNodeHeader (fillPage cfg (internalBytes header node))).toOption.map
      NodeHeader.link = some (internalLink header) := by
  obtain ⟨pad, hpage⟩ := internalPage_eq cfg header node
  rw [hpage]
  exact deserializeNodeHeader_link
    { header with
      type := .kInternal
      keyCount := node.separatorKeys.length
      nextLeafPageId := invalidPageId }
    ⟨hok.parent_lt, invalidPageId_lt⟩ _

end Headers

section Pages

variable {id : ℕ} {header : NodeHeader} {entries : List LeafEntry} {node : InternalNodeData}
  {page : ByteString} {α : Type} {link : Link}

theorem writePage_eq_ok (h : writePage id page s = (.ok (), s')) :
    id < s.pageManager.pages.length ∧
      s' = { s with pageManager := s.pageManager.setPages (s.pageManager.pages.set id page) } := by
  obtain ⟨pm, hwrite, rfl⟩ := onPages_eq_ok h
  unfold PageManager.writePage at hwrite
  split_ifs at hwrite with hopen hrange hsize
  · cases hwrite
  · cases hwrite
  · cases hwrite
  · cases hwrite
    exact ⟨not_le.mp hrange, rfl⟩

theorem parseLeafPage_header (h : parseLeafPage cfg page = .ok (header, entries)) :
    deserializeNodeHeader page = .ok header ∧ header.type = .kLeaf := by
  unfold parseLeafPage at h
  obtain ⟨header', hheader, hrest⟩ := except_bind_eq_ok.mp h
  split_ifs at hrest with htype
  obtain ⟨p, -, heq⟩ := except_bind_eq_ok.mp hrest
  cases heq
  exact ⟨hheader, not_not.mp htype⟩

theorem parseInternalPage_header (h : parseInternalPage cfg page = .ok (header, node)) :
    deserializeNodeHeader page = .ok header ∧ header.type = .kInternal := by
  unfold parseInternalPage at h
  obtain ⟨header', hheader, hrest⟩ := except_bind_eq_ok.mp h
  split_ifs at hrest with htype
  obtain ⟨p, -, hrest⟩ := except_bind_eq_ok.mp hrest
  obtain ⟨q, -, heq⟩ := except_bind_eq_ok.mp hrest
  cases heq
  exact ⟨hheader, not_not.mp htype⟩

theorem linkAt_of_header (hpage : s.pageManager.pages[id]? = some page)
    (hheader : deserializeNodeHeader page = .ok header) : linkAt s id = some header.link := by
  rw [linkAt, hpage, Option.bind_some, hheader]
  rfl

theorem readLeaf_link (h : readLeaf id s = (.ok (header, entries), s')) :
    s' = s ∧ linkAt s id = some (leafLink header) ∧ HeaderOk header := by
  obtain ⟨rfl, page, -, hpage, hparse⟩ := readParsed_eq_ok h
  obtain ⟨hheader, htype⟩ := parseLeafPage_header hparse
  refine ⟨rfl, ?_, deserializeNodeHeader_ok hheader⟩
  rw [linkAt_of_header hpage hheader, NodeHeader.link, leafLink, htype, if_pos rfl]

theorem readInternal_link (h : readInternal id s = (.ok (header, node), s')) :
    s' = s ∧ linkAt s id = some (internalLink header) ∧ HeaderOk header := by
  obtain ⟨rfl, page, -, hpage, hparse⟩ := readParsed_eq_ok h
  obtain ⟨hheader, htype⟩ := parseInternalPage_header hparse
  refine ⟨rfl, ?_, deserializeNodeHeader_ok hheader⟩
  rw [linkAt_of_header hpage hheader, NodeHeader.link, internalLink, htype, if_neg (by simp)]

theorem readLeaves_link {id' : ℕ} {header' : NodeHeader} {entries' : List LeafEntry}
    (h : readLeaves id id' s = (.ok ((header, entries), (header', entries')), s')) :
    s' = s ∧ (linkAt s id = some (leafLink header) ∧ HeaderOk header) ∧
      linkAt s id' = some (leafLink header') ∧ HeaderOk header' := by
  obtain ⟨rfl, hleaf, hleaf'⟩ := readBoth_eq_ok h
  exact ⟨rfl, (readLeaf_link hleaf).2, (readLeaf_link hleaf').2⟩

theorem readNode_link {current : Node} (h : readNode id s = (.ok current, s'))
    (hlink : linkAt s id = some link) (htype : link.type = .kLeaf) :
    s' = s ∧ ∃ header entries, current = .leaf header entries := by
  obtain ⟨rfl, page, -, hpage, hparse⟩ := readParsed_eq_ok h
  refine ⟨rfl, ?_⟩
  obtain ⟨header, hheader, hrest⟩ := except_bind_eq_ok.mp hparse
  rw [linkAt_of_header hpage hheader] at hlink
  cases hlink
  have hleaf : header.type = .kLeaf := htype
  rw [hleaf] at hrest
  obtain ⟨p, -, heq⟩ := except_bind_eq_ok.mp hrest
  cases heq
  exact ⟨_, _, rfl⟩

/-- At most one page has changed. -/
structure Touched (s s' : BStarTree) (id : ℕ) : Prop where
  pages_eq : ∀ j ≠ id, s'.pageManager.pages[j]? = s.pageManager.pages[j]?
  pageSize_eq : s'.pageManager.pageSize = s.pageManager.pageSize
  isOpen_eq : s'.pageManager.isOpen = s.pageManager.isOpen
  cfg_eq : s'.cfg = s.cfg
  metadata_eq : s'.metadata = s.metadata

theorem Touched.others (ht : Touched s s' id) (j : ℕ) (hj : j ≠ id) : linkAt s' j = linkAt s j := by
  rw [linkAt, linkAt, ht.pages_eq j hj]

/-- A node is read as before as long as its page is not the one that changed. -/
theorem Touched.readInternal {r : ℕ} {x : NodeHeader × InternalNodeData} (ht : Touched s s' id)
    (hr : r ≠ id) (h : readInternal r s = (.ok x, s)) : readInternal r s' = (.ok x, s') := by
  obtain ⟨-, page, hread, hpage, hparse⟩ := readParsed_eq_ok h
  have hopen : s.pageManager.isOpen = true := by
    obtain ⟨pm, hpm, -⟩ := onPages_eq_ok hread
    unfold PageManager.readPage at hpm
    split_ifs at hpm with hclosed
    · cases hpm
    · simpa using hclosed
  have hread' : readPage r s' = (.ok page, s') := by
    rw [readPage, onPages_of_eq (PageManager.readPage_some (ht.isOpen_eq.trans hopen)
      ((ht.pages_eq r hr).trans hpage))]
    rfl
  unfold BStarTree.readInternal readParsed
  rw [bind_ok hread', read_bind, ht.cfg_eq]
  exact parsed_ok hparse s'

/-- One page has got a new link. -/
structure Wrote (s s' : BStarTree) (id : ℕ) (link : Link) : Prop extends Touched s s' id where
  link_eq : linkAt s' id = some link

theorem writePage_touched (h : writePage id page s = (.ok (), s')) : Touched s s' id := by
  obtain ⟨hlt, rfl⟩ := writePage_eq_ok h
  exact ⟨fun j hj => List.getElem?_set_ne (Ne.symm hj), rfl, rfl, rfl, rfl⟩

theorem writePage_wrote (h : writePage id page s = (.ok (), s'))
    (hlink : (deserializeNodeHeader page).toOption.map NodeHeader.link = some link) :
    Wrote s s' id link := by
  refine ⟨writePage_touched h, ?_⟩
  obtain ⟨hlt, rfl⟩ := writePage_eq_ok h
  rw [linkAt, PageManager.setPages_pages, List.getElem?_set_self hlt, Option.bind_some, hlink]

theorem buildLeafPage_link (h : buildLeafPage cfg header entries = .ok page)
    (hok : HeaderOk header) :
    (deserializeNodeHeader page).toOption.map NodeHeader.link = some (leafLink header) := by
  unfold buildLeafPage at h
  split_ifs at h
  cases h
  exact link_leafPage cfg hok entries

theorem buildInternalPage_link (h : buildInternalPage cfg header node = .ok page)
    (hok : HeaderOk header) :
    (deserializeNodeHeader page).toOption.map NodeHeader.link = some (internalLink header) := by
  unfold buildInternalPage at h
  split_ifs at h
  cases h
  exact link_internalPage cfg hok node

theorem writeBuilt_eq_ok {build : Config → Except Status ByteString}
    (h : writeBuilt build id s = (.ok (), s')) :
    ∃ page, build s.cfg = .ok page ∧ writePage id page s = (.ok (), s') := by
  unfold writeBuilt at h
  rw [read_bind] at h
  obtain ⟨page, s₁, hbuild, hwrite⟩ := bind_eq_ok.mp h
  obtain ⟨hbuild, rfl⟩ := parsed_eq_ok hbuild
  exact ⟨page, hbuild, hwrite⟩

theorem writeInternal_touched (h : writeInternal id header node s = (.ok (), s')) :
    Touched s s' id := by
  obtain ⟨page, -, hwrite⟩ := writeBuilt_eq_ok h
  exact writePage_touched hwrite

theorem writeLeaf_wrote (h : writeLeaf id header entries s = (.ok (), s'))
    (hok : HeaderOk header) : Wrote s s' id (leafLink header) := by
  obtain ⟨page, hbuild, hwrite⟩ := writeBuilt_eq_ok h
  exact writePage_wrote hwrite (buildLeafPage_link hbuild hok)

theorem writeInternal_wrote (h : writeInternal id header node s = (.ok (), s'))
    (hok : HeaderOk header) : Wrote s s' id (internalLink header) := by
  obtain ⟨page, hbuild, hwrite⟩ := writeBuilt_eq_ok h
  exact writePage_wrote hwrite (buildInternalPage_link hbuild hok)

theorem lt_length_of_linkAt (h : linkAt s id = some link) : id < s.pageManager.pages.length := by
  by_contra hge
  rw [linkAt, List.getElem?_eq_none (not_lt.mp hge)] at h
  cases h

theorem allocateNodePage_touched (h : allocateNodePage s = (.ok id, s')) :
    linkAt s id = none ∧ Touched s s' id ∧ (0 < s.pageManager.pageSize → id < 2 ^ 63) ∧
      id = s.pageManager.pages.length ∧ s'.pageManager.pages.length = id + 1 := by
  obtain ⟨pm, halloc, rfl⟩ := onPages_eq_ok h
  unfold PageManager.allocatePage at halloc
  split_ifs at halloc with hopen hcap
  · cases halloc
  · cases halloc
  · cases halloc
    refine ⟨?_, ⟨fun j hj => ?_, rfl, rfl, rfl, rfl⟩, fun hpos => ?_, rfl, by simp⟩
    · rw [linkAt, List.getElem?_eq_none le_rfl]
      rfl
    · rw [PageManager.setPages_pages]
      rcases lt_or_gt_of_ne hj with hlt | hgt
      · rw [List.getElem?_append_left hlt]
      · rw [List.getElem?_eq_none (by simpa using hgt), List.getElem?_eq_none hgt.le]
    · have hmul := Nat.le_mul_of_pos_right (s.pageManager.pages.length + 1) hpos
      rw [pageFileHeaderSize, maxFileOffset] at hcap
      omega

theorem saveMetadata_links {f : TreeMetadata → TreeMetadata}
    (h : saveMetadata f s = (.ok (), s')) :
    (∀ j ≠ 0, linkAt s' j = linkAt s j) ∧ s'.metadata = f s.metadata := by
  obtain ⟨_, s₁, hset, hwrite⟩ := bind_eq_ok.mp h
  cases hset
  unfold writeMetadata at hwrite
  rw [read_bind] at hwrite
  split_ifs at hwrite with hsize
  · cases hwrite
  · obtain ⟨-, rfl⟩ := writePage_eq_ok hwrite
    refine ⟨fun j hj => ?_, rfl⟩
    rw [linkAt, PageManager.setPages_pages, List.getElem?_set_ne (Ne.symm hj)]
    rfl

end Pages

end CourseDb.BStarTree

import CourseDb.Index.NodeLinks

/-! # Parent pointers

A node is written with the page of its parent in its header, and the loops that
should correct the header when a node moves under another parent lose the
correction. So the parent pointers are right as long as no internal node is
split, which is to say in trees of at most two levels.
-/

namespace CourseDb.BStarTree

open Fallible (read_bind bind_ok bind_eq_ok)
open BTree Codec

variable {cfg : Config} {s s' s₁ : BStarTree} {m : TreeMetadata} {M : NodeCells}
  {H next rightPage : ℕ} {E : List LeafEntry} {id r p : ℕ} {header : NodeHeader} {L : Set ℕ}
  {link : Link}

/-- The `parent_page_id` in the header of a page. -/
def parentAt (s : BStarTree) (id : ℕ) : Option ℕ :=
  s.pageManager.pages[id]?.bind fun page =>
    (deserializeNodeHeader page).toOption.map NodeHeader.parentPageId

/-- Every node below the root names the node that lists it as a child, and the root no node. -/
def ParentsRight (s : BStarTree) : Prop :=
  s.metadata.rootPageId ≠ invalidPageId →
    parentAt s s.metadata.rootPageId = some invalidPageId ∧
    ∀ {d id isRoot separators children child},
      Reach (pageView s) s.metadata.rootPageId d id →
      pageView s id = some (.branch isRoot separators children) → child ∈ children →
      parentAt s child = some id

theorem parentAt_of_linkAt (h : linkAt s id = some link) : parentAt s id = some link.parent := by
  unfold linkAt at h
  unfold parentAt
  cases hpage : s.pageManager.pages[id]? with
  | none => simp [hpage] at h
  | some page =>
    rw [hpage, Option.bind_some] at h
    obtain ⟨header, hheader, rfl⟩ := Option.map_eq_some_iff.mp h
    rw [Option.bind_some, hheader]
    rfl

/-- Neither the links nor the metadata have changed. -/
def SameLinks (s s' : BStarTree) : Prop :=
  (∀ id, linkAt s' id = linkAt s id) ∧ s'.metadata = s.metadata

theorem SameLinks.refl (s : BStarTree) : SameLinks s s := ⟨fun _ => rfl, rfl⟩

theorem SameLinks.trans (h : SameLinks s s₁) (h' : SameLinks s₁ s') : SameLinks s s' :=
  ⟨fun id => (h'.1 id).trans (h.1 id), h'.2.trans h.2⟩

theorem Wrote.same (hw : Wrote s s' id link) (hlink : linkAt s id = some link) :
    SameLinks s s' := by
  refine ⟨fun j => ?_, hw.metadata_eq⟩
  by_cases hj : j = id
  · rw [hj, hw.link_eq, hlink]
  · exact hw.others j hj

/-- The parent that the child should get does not reach its page. -/
theorem rewriteChildParent_same {child parent : ℕ}
    (h : rewriteChildParent child parent s = (.ok (), s')) : SameLinks s s' := by
  unfold rewriteChildParent at h
  obtain ⟨page, s₁, hread, h₁⟩ := bind_eq_ok.mp h
  obtain ⟨rfl, hpage⟩ := readPage_eq_ok hread
  rw [read_bind] at h₁
  obtain ⟨header, s₂, hheader, h₂⟩ := bind_eq_ok.mp h₁
  obtain ⟨-, rfl⟩ := parsed_eq_ok hheader
  cases htype : header.type with
  | kLeaf =>
    simp only [htype] at h₂
    obtain ⟨⟨header', leaf⟩, s₃, hparse, hwrite⟩ := bind_eq_ok.mp h₂
    obtain ⟨hparse, rfl⟩ := parsed_eq_ok hparse
    obtain ⟨hheader', hleaf⟩ := parseLeafPage_header hparse
    refine (writeLeaf_wrote hwrite (deserializeNodeHeader_ok hheader')).same ?_
    rw [linkAt_of_header hpage hheader', NodeHeader.link, leafLink, hleaf, if_pos rfl]
  | kInternal =>
    simp only [htype] at h₂
    obtain ⟨⟨header', node⟩, s₃, hparse, hwrite⟩ := bind_eq_ok.mp h₂
    obtain ⟨hparse, rfl⟩ := parsed_eq_ok hparse
    obtain ⟨hheader', hinternal⟩ := parseInternalPage_header hparse
    refine (writeInternal_wrote hwrite (deserializeNodeHeader_ok hheader')).same ?_
    rw [linkAt_of_header hpage hheader', NodeHeader.link, internalLink, hinternal,
      if_neg (by simp)]

theorem rewriteChildrenParent_same {parent : ℕ} {children : List ℕ}
    (h : rewriteChildrenParent parent children s = (.ok (), s')) : SameLinks s s' := by
  induction children generalizing s with
  | nil =>
    cases h
    exact SameLinks.refl _
  | cons child children ih =>
    obtain ⟨_, s₁, hchild, hrest⟩ := bind_eq_ok.mp h
    exact (rewriteChildParent_same hchild).trans (ih hrest)

theorem rewriteInternal_same {node node' : InternalNodeData}
    (hread : readInternal id s = (.ok (header, node), s₁))
    (hwrite : writeInternal id header node' s = (.ok (), s')) : SameLinks s s' := by
  obtain ⟨-, hlink, hok⟩ := readInternal_link hread
  exact (writeInternal_wrote hwrite hok).same hlink

theorem updateParentSeparator_same {key : Value} {path : List SearchPathEntry}
    (h : updateParentSeparatorAfterChildChange key path s = (.ok (), s')) : SameLinks s s' := by
  induction path with
  | nil =>
    cases h
    exact SameLinks.refl _
  | cons link path ih =>
    unfold updateParentSeparatorAfterChildChange at h
    split_ifs at h with hindex
    · exact ih h
    · obtain ⟨⟨header, node⟩, s₁, hread, hwrite⟩ := bind_eq_ok.mp h
      obtain ⟨rfl, -⟩ := readInternal_link hread
      exact rewriteInternal_same hread hwrite

section Family

/-- The pages `L` are leaves with the parent `p`, linked among themselves. -/
def Siblings (L : Set ℕ) (p : ℕ) (s : BStarTree) : Prop :=
  ∀ id ∈ L, (0 < id ∧ id < 2 ^ 63) ∧ ∃ next, linkAt s id = some ⟨.kLeaf, p, next⟩ ∧
    (next = invalidPageId ∨ next ∈ L)

section

variable (h : Siblings L p s)
include h

theorem Siblings.of_links (heq : ∀ id ∈ L, linkAt s' id = linkAt s id) : Siblings L p s' := by
  intro id hid
  obtain ⟨hpos, next, hlink, hnext⟩ := h id hid
  exact ⟨hpos, next, (heq id hid).trans hlink, hnext⟩

theorem Siblings.write (hw : Wrote s s' id ⟨.kLeaf, p, next⟩)
    (hnext : next = invalidPageId ∨ next ∈ L) : Siblings L p s' := by
  intro j hj
  obtain ⟨hpos, next', hlink, hnext'⟩ := h j hj
  by_cases heq : j = id
  · exact ⟨hpos, next, by rw [heq]; exact hw.link_eq, hnext⟩
  · exact ⟨hpos, next', (hw.others j heq).trans hlink, hnext'⟩

theorem Siblings.header_eq (hid : id ∈ L) (hlink : linkAt s id = some (leafLink header)) :
    header.parentPageId = p ∧ (header.nextLeafPageId = invalidPageId ∨ header.nextLeafPageId ∈ L) := by
  obtain ⟨-, next, hlink', hnext⟩ := h id hid
  rw [hlink, leafLink] at hlink'
  cases hlink'
  exact ⟨rfl, hnext⟩

theorem Siblings.not_mem (hlink : linkAt s id = some link) (htype : link.type = .kInternal) :
    id ∉ L := by
  intro hid
  obtain ⟨-, next, hleaf, -⟩ := h id hid
  rw [hlink] at hleaf
  cases hleaf
  cases htype

theorem Siblings.not_mem_of_none (hlink : linkAt s id = none) : id ∉ L := by
  intro hid
  obtain ⟨-, next, hleaf, -⟩ := h id hid
  rw [hlink] at hleaf
  cases hleaf

theorem Siblings.touched (ht : Touched s s' id) (hid : id ∉ L) : Siblings L p s' :=
  h.of_links fun j hj => ht.others j fun heq => hid (heq ▸ hj)

end

/-- The internal page `r` is the root, and the leaves `L` name it as their parent. -/
structure Family (L : Set ℕ) (r : ℕ) (s : BStarTree) : Prop where
  leaves : Siblings L r s
  root : linkAt s r = some ⟨.kInternal, invalidPageId, invalidPageId⟩
  root_valid : 0 < r ∧ r < 2 ^ 63

theorem Family.same (h : Family L r s) (hsame : SameLinks s s') : Family L r s' :=
  ⟨h.leaves.of_links fun id _ => hsame.1 id, (hsame.1 r).trans h.root, h.root_valid⟩

theorem Family.root_not_mem (h : Family L r s) : r ∉ L := h.leaves.not_mem h.root rfl

theorem Family.write (h : Family L r s) (hid : id ∈ L) (hw : Wrote s s' id ⟨.kLeaf, r, next⟩)
    (hnext : next = invalidPageId ∨ next ∈ L) : Family L r s' := by
  refine ⟨h.leaves.write hw hnext, ?_, h.root_valid⟩
  rw [hw.others r fun heq => h.root_not_mem (heq ▸ hid)]
  exact h.root

/-- The root is a leaf, and names no parent. -/
def Lone (s : BStarTree) : Prop :=
  s.metadata.treeHeight = 1 ∧
    ∃ next, linkAt s s.metadata.rootPageId = some ⟨.kLeaf, invalidPageId, next⟩

/-- The link of a search path leads to a child, and all children are in the family. -/
structure Listed (L : Set ℕ) (link : SearchPathEntry) (s : BStarTree) : Prop where
  children : ∀ {header node s'}, readInternal link.pageId s = (.ok (header, node), s') →
    ∀ c ∈ node.childPageIds, c ∈ L
  index : ∀ {header node s'}, readInternal link.pageId s = (.ok (header, node), s') →
    link.childIndex ≤ node.childPageIds.length

end Family

section Leaves

variable {leafPage : ℕ} {link : SearchPathEntry} {path : List SearchPathEntry} {es : List LeafEntry}
  {parent : InternalNodeData} {parentHeader : NodeHeader} {outcome : MergeOutcome}

theorem writeSharedLeaves_family {currentHeader rightHeader : NodeHeader}
    {newLeft newRight : List LeafEntry} (hf : Family L link.pageId s) (hleaf : leafPage ∈ L)
    (hright : rightPage ∈ L)
    (hcurrent : linkAt s leafPage = some (leafLink currentHeader) ∧ HeaderOk currentHeader)
    (hsibling : linkAt s rightPage = some (leafLink rightHeader) ∧ HeaderOk rightHeader)
    (hparent : linkAt s link.pageId = some (internalLink parentHeader) ∧ HeaderOk parentHeader)
    (h : writeSharedLeaves path link parentHeader parent leafPage rightPage currentHeader
      rightHeader newLeft newRight s = (.ok (), s')) :
    Family L link.pageId s' ∧ s'.metadata = s.metadata := by
  unfold writeSharedLeaves at h
  obtain ⟨_, s₁, hwrite₁, h₁⟩ := bind_eq_ok.mp h
  obtain ⟨_, s₂, hwrite₂, h₂⟩ := bind_eq_ok.mp h₁
  obtain ⟨_, s₃, hwrite₃, h₃⟩ := bind_eq_ok.mp h₂
  have hroot := hf.root_not_mem
  obtain ⟨hcurrentParent, -⟩ := hf.leaves.header_eq hleaf hcurrent.1
  obtain ⟨hrightParent, hrightNext⟩ := hf.leaves.header_eq hright hsibling.1
  have hright_lt : rightPage < 2 ^ 64 := (hf.leaves rightPage hright).1.2.trans (by decide)
  have hw₁ := writeLeaf_wrote hwrite₁ ⟨hcurrent.2.parent_lt, hright_lt⟩
  simp only [leafLink, hcurrentParent] at hw₁
  have hf₁ := hf.write hleaf hw₁ (.inr hright)
  have hw₂ := writeLeaf_wrote hwrite₂ hsibling.2
  simp only [leafLink, hrightParent] at hw₂
  have hf₂ := hf₁.write hright hw₂ hrightNext
  have hw₃ := writeInternal_wrote hwrite₃ hparent.2
  have hparent₂ : linkAt s₂ link.pageId = some (internalLink parentHeader) := by
    rw [hf₂.root, ← hf.root, hparent.1]
  have hsame₃ := hw₃.same hparent₂
  have hsame₄ : SameLinks s₃ s' := by
    split_ifs at h₃ with hfirst
    · exact updateParentSeparator_same h₃
    · cases h₃
      exact SameLinks.refl _
  exact ⟨(hf₂.same hsame₃).same hsame₄,
    hsame₄.2.trans (hsame₃.2.trans (hw₂.metadata_eq.trans hw₁.metadata_eq))⟩

theorem redistributeLeaf_family {b : Bool} (hf : Family L link.pageId s) (hleaf : leafPage ∈ L)
    (hlists : Listed L link s)
    (h : redistributeLeafWithRightSibling leafPage (link :: path) es s = (.ok b, s')) :
    (b = false ∧ s' = s) ∨
      b = true ∧ Family L link.pageId s' ∧ s'.metadata = s.metadata := by
  unfold redistributeLeafWithRightSibling at h
  obtain ⟨⟨parentHeader, parent⟩, s₁, hparent, h₁⟩ := bind_eq_ok.mp h
  obtain ⟨rfl, hparentLink⟩ := readInternal_link hparent
  cases hsibling : parent.childPageIds[link.childIndex + 1]? with
  | none =>
    simp only [hsibling] at h₁
    cases h₁
    exact .inl ⟨rfl, rfl⟩
  | some rightPage =>
    have hright : rightPage ∈ L := hlists.children hparent _ (List.mem_of_getElem? hsibling)
    simp only [hsibling] at h₁
    obtain ⟨⟨⟨currentHeader, old⟩, rightHeader, right⟩, s₂, hleaves, h₂⟩ :=
      bind_eq_ok.mp h₁
    obtain ⟨rfl, hcurrent, hrightLink⟩ := readLeaves_link hleaves
    rw [read_bind] at h₂
    generalize chooseBalancedSplit _ _ = choice at h₂
    cases choice with
    | none =>
      cases h₂
      exact .inl ⟨rfl, rfl⟩
    | some split =>
      obtain ⟨_, s₃, hwrite, h₃⟩ := bind_eq_ok.mp h₂
      cases h₃
      exact .inr ⟨rfl, writeSharedLeaves_family hf hleaf hright hcurrent hrightLink hparentLink
        hwrite⟩

theorem shrinkParent_same {parentPage : ℕ}
    (hparent : linkAt s parentPage = some (internalLink parentHeader)) (hok : HeaderOk parentHeader)
    (h : shrinkParent parentPage parentHeader parent s = (.ok outcome, s')) :
    outcome ≠ .notMerged ∧ SameLinks s s' := by
  unfold shrinkParent at h
  obtain ⟨_, s₁, hwrite, h₁⟩ := bind_eq_ok.mp h
  have hsame := (writeInternal_wrote hwrite hok).same hparent
  rw [read_bind] at h₁
  split_ifs at h₁ <;> cases h₁
  · exact ⟨by simp, hsame⟩
  · exact ⟨by simp, hsame⟩

/-- What becomes of a family of leaves when an entry is deleted. -/
def Kept (L : Set ℕ) (r : ℕ) (s s' : BStarTree) : Prop :=
  (Family L r s' ∧ s'.metadata = s.metadata) ∨ Lone s'

section

variable (hf : Family L link.pageId s)
include hf

/-- A merge keeps the remaining leaf in the family, or makes it the root. -/
theorem mergeLeaf_family (hleaf : leafPage ∈ L) (hlists : Listed L link s)
    (h : mergeLeafWithRightSibling leafPage (link :: path) s = (.ok outcome, s')) :
    (outcome = .notMerged ∧ s' = s) ∨ outcome ≠ .notMerged ∧ Kept L link.pageId s s' := by
  unfold mergeLeafWithRightSibling at h
  obtain ⟨⟨parentHeader, parent⟩, s₁, hparent, h₁⟩ := bind_eq_ok.mp h
  obtain ⟨rfl, hparentLink, hparentOk⟩ := readInternal_link hparent
  cases hsibling : parent.childPageIds[link.childIndex + 1]? with
  | none =>
    simp only [hsibling] at h₁
    cases h₁
    exact .inl ⟨rfl, rfl⟩
  | some rightPage =>
    have hright : rightPage ∈ L := hlists.children hparent _ (List.mem_of_getElem? hsibling)
    simp only [hsibling] at h₁
    obtain ⟨⟨⟨leftHeader, left⟩, rightHeader, right⟩, s₂, hleaves, h₂⟩ :=
      bind_eq_ok.mp h₁
    obtain ⟨rfl, ⟨hleft, hleftOk⟩, hrightLink, hrightOk⟩ := readLeaves_link hleaves
    obtain ⟨hleftParent, -⟩ := hf.leaves.header_eq hleaf hleft
    obtain ⟨-, hrightNext⟩ := hf.leaves.header_eq hright hrightLink
    have hok : HeaderOk { leftHeader with nextLeafPageId := rightHeader.nextLeafPageId } :=
      ⟨hleftOk.parent_lt, hrightOk.next_lt⟩
    rw [read_bind] at h₂
    cases hbuild : buildLeafPage s₂.cfg
        { leftHeader with nextLeafPageId := rightHeader.nextLeafPageId } (left ++ right) with
    | error e =>
      simp only [hbuild] at h₂
      cases h₂
      exact .inl ⟨rfl, rfl⟩
    | ok page =>
      simp only [hbuild] at h₂
      obtain ⟨_, s₃, hwrite, h₃⟩ := bind_eq_ok.mp h₂
      have hw := writePage_wrote hwrite (buildLeafPage_link hbuild hok)
      simp only [leafLink, hleftParent] at hw
      have hf₃ := hf.write hleaf hw hrightNext
      refine .inr ?_
      split_ifs at h₃ with hempty
      · -- the leaf takes the place of the root
        obtain ⟨_, s₄, hleafWrite, h₄⟩ := bind_eq_ok.mp h₃
        obtain ⟨_, s₅, hsave, h₅⟩ := bind_eq_ok.mp h₄
        cases h₅
        have hroot := writeLeaf_wrote hleafWrite ⟨invalidPageId_lt, hrightOk.next_lt⟩
        obtain ⟨hlinks, hmetadata⟩ := saveMetadata_links hsave
        refine ⟨by simp, .inr ?_⟩
        rw [Lone, hmetadata]
        refine ⟨rfl, rightHeader.nextLeafPageId, ?_⟩
        rw [hlinks _ (hf.leaves leafPage hleaf).1.1.ne', hroot.link_eq]
        rfl
      · have hparent₃ : linkAt s₃ link.pageId = some (internalLink parentHeader) := by
          rw [hf₃.root, ← hf.root, hparentLink]
        obtain ⟨hmerged, hsame⟩ := shrinkParent_same hparent₃ hparentOk h₃
        exact ⟨hmerged, .inl ⟨hf₃.same hsame, hsame.2.trans hw.metadata_eq⟩⟩

theorem redistributeOrMerge_family {entries : List LeafEntry} (hleaf : leafPage ∈ L)
    (hlists : Listed L link s)
    (h : redistributeOrMerge leafPage (link :: path) (.leaf header entries) s = (.ok outcome, s')) :
    (outcome = .notMerged ∧ s' = s) ∨ outcome ≠ .notMerged ∧ Kept L link.pageId s s' := by
  unfold redistributeOrMerge at h
  obtain ⟨shared, s₁, hshare, h₁⟩ := bind_eq_ok.mp h
  rcases redistributeLeaf_family hf hleaf hlists hshare with ⟨rfl, rfl⟩ | ⟨rfl, hf₁, hmetadata⟩
  · rw [if_neg Bool.false_ne_true] at h₁
    exact mergeLeaf_family hf hleaf hlists h₁
  · cases h₁
    exact .inr ⟨by simp, .inl ⟨hf₁, hmetadata⟩⟩

/-- The second half of `RebalanceAfterDelete` for a node: the left sibling. -/
theorem rebalanceLeft_family (hlists : Listed L link s)
    (hparent : readInternal link.pageId s = (.ok (header, parent), s₁))
    (h : (if link.childIndex = 0 then
        return .notMerged
      else do
        let leftPage := parent.childPageIds.getD (link.childIndex - 1) invalidPageId
        let left ← readNode leftPage
        redistributeOrMerge leftPage ({ link with childIndex := link.childIndex - 1 } :: path) left
        : Action MergeOutcome) s = (.ok outcome, s')) : Kept L link.pageId s s' := by
  have hsame : Kept L link.pageId s s := .inl ⟨hf, rfl⟩
  by_cases hzero : link.childIndex = 0
  · rw [if_pos hzero] at h
    cases h
    exact hsame
  · rw [if_neg hzero] at h
    have hleft : parent.childPageIds.getD (link.childIndex - 1) invalidPageId ∈ L := by
      have hle := hlists.index hparent
      have hlt : link.childIndex - 1 < parent.childPageIds.length := by omega
      have hget : parent.childPageIds.getD (link.childIndex - 1) invalidPageId =
          parent.childPageIds[link.childIndex - 1] := by simp [hlt]
      rw [hget]
      exact hlists.children hparent _ (List.getElem_mem hlt)
    obtain ⟨-, next, hlink, -⟩ := hf.leaves _ hleft
    obtain ⟨left, s₂, hread, h₁⟩ := bind_eq_ok.mp h
    obtain ⟨rfl, header', entries, rfl⟩ := readNode_link hread hlink rfl
    have hlists' : Listed L { link with childIndex := link.childIndex - 1 } s₂ :=
      ⟨hlists.children, fun hread => (Nat.sub_le _ _).trans (hlists.index hread)⟩
    have hf' : Family L ({ link with childIndex := link.childIndex - 1 } : SearchPathEntry).pageId s₂ :=
      hf
    rcases redistributeOrMerge_family hf' hleft hlists' h₁ with ⟨-, rfl⟩ | ⟨-, hkept⟩
    · exact hsame
    · exact hkept

theorem rebalanceNode_family (hleaf : leafPage ∈ L) (hlists : Listed L link s)
    (h : rebalanceNode leafPage link path s = (.ok outcome, s')) : Kept L link.pageId s s' := by
  obtain ⟨-, next, hlink, -⟩ := hf.leaves leafPage hleaf
  unfold rebalanceNode at h
  rw [read_bind] at h
  obtain ⟨current, s₁, hcurrent, h₁⟩ := bind_eq_ok.mp h
  obtain ⟨rfl, header, entries, rfl⟩ := readNode_link hcurrent hlink rfl
  by_cases hunder : (!(Node.leaf header entries).isUnderfull s₁.cfg) = true
  · rw [if_pos hunder] at h₁
    cases h₁
    exact .inl ⟨hf, rfl⟩
  · rw [if_neg hunder] at h₁
    obtain ⟨⟨parentHeader, parent⟩, s₂, hparent, h₂⟩ := bind_eq_ok.mp h₁
    obtain ⟨rfl, -⟩ := readInternal_link hparent
    dsimp only at h₂
    by_cases hsibling : link.childIndex + 1 < parent.childPageIds.length
    · rw [if_pos hsibling] at h₂
      obtain ⟨first, s₃, hfirst, h₃⟩ := bind_eq_ok.mp h₂
      rcases redistributeOrMerge_family hf hleaf hlists hfirst with ⟨rfl, rfl⟩ | ⟨hmerged, hkept⟩
      · exact rebalanceLeft_family hf hlists hparent h₃
      · cases first with
        | notMerged => exact absurd rfl hmerged
        | merged =>
          cases h₃
          exact hkept
        | parentUnderfull =>
          cases h₃
          exact hkept
    · rw [if_neg hsibling] at h₂
      obtain ⟨first, s₃, hfirst, h₃⟩ := bind_eq_ok.mp h₂
      cases hfirst
      exact rebalanceLeft_family hf hlists hparent h₃

end

end Leaves

section Splits

/-- The leaves have kept their parent, and the tree has grown above it. -/
structure Outgrown (L : Set ℕ) (p : ℕ) (s s' : BStarTree) : Prop where
  leaves : Siblings L p s'
  first_eq : s'.metadata.firstLeafPageId = s.metadata.firstLeafPageId
  height_eq : s'.metadata.treeHeight = (s.metadata.treeHeight + 1) % 2 ^ 64

variable {node expanded : InternalNodeData} {key : Value} {index internalPage : ℕ}

theorem writeSplitInternals_siblings {left right : InternalNodeData} (h : Siblings L p s)
    (hleft : internalPage ∉ L) (hright : rightPage ∉ L)
    (hrun : writeSplitInternals internalPage rightPage header left right s = (.ok (), s')) :
    Siblings L p s' ∧ s'.metadata = s.metadata := by
  unfold writeSplitInternals at hrun
  obtain ⟨_, s₁, hwrite₁, h₁⟩ := bind_eq_ok.mp hrun
  obtain ⟨_, s₂, hwrite₂, h₂⟩ := bind_eq_ok.mp h₁
  obtain ⟨_, s₃, hrewrite₃, hrewrite₄⟩ := bind_eq_ok.mp h₂
  have ht₁ := writeInternal_touched hwrite₁
  have ht₂ := writeInternal_touched hwrite₂
  have hsame := (rewriteChildrenParent_same hrewrite₃).trans (rewriteChildrenParent_same hrewrite₄)
  refine ⟨((h.touched ht₁ hleft).touched ht₂ hright).of_links fun j _ => hsame.1 j, ?_⟩
  rw [hsame.2, ht₂.metadata_eq, ht₁.metadata_eq]

/-- When the root is split, its children keep naming it as their parent. -/
theorem splitInternal_siblings {result : Option (Value × ℕ)} (h : Siblings L p s)
    (hpage : internalPage ∉ L) (hrun : splitInternal internalPage [] expanded s = (.ok result, s')) :
    Outgrown L p s s' := by
  unfold splitInternal at hrun
  rw [read_bind] at hrun
  split_ifs at hrun with hcount
  · cases hrun
  · obtain ⟨⟨currentHeader, current⟩, s₁, hread, h₁⟩ := bind_eq_ok.mp hrun
    obtain ⟨rfl, -⟩ := readInternal_link hread
    dsimp only at h₁
    split_ifs at h₁ with hempty
    · cases h₁
    · obtain ⟨rightPage, s₂, hright, h₂⟩ := bind_eq_ok.mp h₁
      obtain ⟨rootPage, s₃, hroot, h₃⟩ := bind_eq_ok.mp h₂
      obtain ⟨_, s₄, hsplit, h₄⟩ := bind_eq_ok.mp h₃
      obtain ⟨_, s₅, hwrite, h₅⟩ := bind_eq_ok.mp h₄
      obtain ⟨_, s₆, hsave, h₆⟩ := bind_eq_ok.mp h₅
      cases h₆
      obtain ⟨hfresh, htouched, -⟩ := allocateNodePage_touched hright
      have hnotRight := h.not_mem_of_none hfresh
      have hs₂ := h.touched htouched hnotRight
      obtain ⟨hfresh', htouched', -⟩ := allocateNodePage_touched hroot
      have hnotRoot := hs₂.not_mem_of_none hfresh'
      have hs₃ := hs₂.touched htouched' hnotRoot
      obtain ⟨hs₄, hmeta₄⟩ := writeSplitInternals_siblings hs₃ hpage hnotRight hsplit
      have htouched₅ := writeInternal_touched hwrite
      have hs₅ := hs₄.touched htouched₅ hnotRoot
      obtain ⟨hlinks, hmeta⟩ := saveMetadata_links hsave
      have hmeta₅ : s₅.metadata = s₁.metadata := by
        rw [htouched₅.metadata_eq, hmeta₄, htouched'.metadata_eq, htouched.metadata_eq]
      refine ⟨hs₅.of_links fun j hj => hlinks j (hs₅ j hj).1.1.ne', ?_, ?_⟩
      · rw [hmeta, hmeta₅]
      · rw [hmeta, hmeta₅]

theorem insertIntoInternal_family {child : ℕ} (hf : Family L r s)
    (hread : readInternal r s = (.ok (header, node), s))
    (hindex : index ≤ node.separatorKeys.length)
    (hrun : insertIntoInternal r [] index key child s = (.ok (), s')) :
    (node.separatorKeys.length < maxKeysPerNode s.cfg ∧ Family L r s' ∧ s'.metadata = s.metadata) ∨
      (maxKeysPerNode s.cfg ≤ node.separatorKeys.length ∧ Outgrown L r s s') := by
  have hlength : (node.insertChild index key child).separatorKeys.length =
      node.separatorKeys.length + 1 := by
    rw [InternalNodeData.insertChild, List.length_insertIdx_of_le_length hindex]
  unfold insertIntoInternal at hrun
  obtain ⟨result, s₁, hnode, hend⟩ := bind_eq_ok.mp hrun
  cases hend
  unfold insertIntoInternalNode at hnode
  rw [read_bind, bind_ok hread] at hnode
  dsimp only at hnode
  rw [hlength] at hnode
  by_cases hroom : node.separatorKeys.length + 1 ≤ maxKeysPerNode s.cfg
  · rw [if_pos hroom] at hnode
    obtain ⟨_, s₂, hwrite, h₂⟩ := bind_eq_ok.mp hnode
    obtain ⟨_, s₃, hrewrite, h₃⟩ := bind_eq_ok.mp h₂
    cases h₃
    have hsame := (rewriteInternal_same hread hwrite).trans (rewriteChildParent_same hrewrite)
    exact .inl ⟨hroom, hf.same hsame, hsame.2⟩
  · rw [if_neg hroom] at hnode
    obtain ⟨shared, s₂, hshare, h₂⟩ := bind_eq_ok.mp hnode
    cases hshare
    exact .inr ⟨by omega, splitInternal_siblings hf.leaves hf.root_not_mem h₂⟩

variable {leafPage : ℕ} {link : SearchPathEntry} {es : List LeafEntry}

theorem writeSplitLeaves_siblings {left right : List LeafEntry} (hok : HeaderOk header)
    (hparent : header.parentPageId = p)
    (hnext : header.nextLeafPageId = invalidPageId ∨ header.nextLeafPageId ∈ L)
    (hleaf : 0 < leafPage ∧ leafPage < 2 ^ 63) (hright : 0 < rightPage ∧ rightPage < 2 ^ 63)
    (hne : leafPage ≠ rightPage) (hothers : ∀ id ∈ L, id ≠ leafPage → (0 < id ∧ id < 2 ^ 63) ∧
      ∃ next, linkAt s id = some ⟨.kLeaf, p, next⟩ ∧ (next = invalidPageId ∨ next ∈ L))
    (hrun : writeSplitLeaves leafPage rightPage header left right s = (.ok (), s')) :
    ∃ s₁, Touched s s₁ leafPage ∧ Touched s₁ s' rightPage ∧
      Siblings ({leafPage, rightPage} ∪ L) p s' := by
  unfold writeSplitLeaves at hrun
  obtain ⟨_, s₁, hwrite₁, hwrite₂⟩ := bind_eq_ok.mp hrun
  have hok₁ : HeaderOk { header with nextLeafPageId := rightPage } :=
    ⟨hok.parent_lt, hright.2.trans (by decide)⟩
  have hw₁ := writeLeaf_wrote hwrite₁ hok₁
  have hw₂ := writeLeaf_wrote hwrite₂ hok
  refine ⟨s₁, hw₁.toTouched, hw₂.toTouched, ?_⟩
  intro j hj
  by_cases hjright : j = rightPage
  · refine ⟨hjright ▸ hright, header.nextLeafPageId, ?_, hnext.imp_right fun h => by simp [h]⟩
    rw [hjright, hw₂.link_eq, leafLink, hparent]
  · by_cases hjleaf : j = leafPage
    · refine ⟨hjleaf ▸ hleaf, rightPage, ?_, by simp⟩
      rw [hjleaf, hw₂.others _ hne, hw₁.link_eq, leafLink, hparent]
    · have hjL : j ∈ L := by simpa [hjleaf, hjright] using hj
      obtain ⟨hvalid, next, hlink, hnext'⟩ := hothers j hjL hjleaf
      refine ⟨hvalid, next, ?_, hnext'.imp_right fun h => by simp [h]⟩
      rw [hw₂.others j hjright, hw₁.others j hjleaf, hlink]

/-- A split below the root adds a leaf to the family, unless the root has no room for it. -/
theorem splitLeaf_family (hf : Family L link.pageId s) (hleaf : leafPage ∈ L)
    (hsize : 0 < s.pageManager.pageSize)
    (hread : readInternal link.pageId s = (.ok (header, node), s))
    (hindex : link.childIndex ≤ node.separatorKeys.length)
    (hrun : splitLeaf leafPage [link] es s = (.ok (), s')) :
    ∃ L', L ⊆ L' ∧
      ((node.separatorKeys.length < maxKeysPerNode s.cfg ∧ Family L' link.pageId s' ∧
          s'.metadata = s.metadata) ∨
        (maxKeysPerNode s.cfg ≤ node.separatorKeys.length ∧ Outgrown L' link.pageId s s')) := by
  unfold splitLeaf at hrun
  rw [read_bind] at hrun
  split_ifs at hrun with hcount
  · cases hrun
  · obtain ⟨⟨currentHeader, current⟩, s₁, hcurrent, h₁⟩ := bind_eq_ok.mp hrun
    obtain ⟨rfl, hlink, hok⟩ := readLeaf_link hcurrent
    obtain ⟨-, hnext⟩ := hf.leaves.header_eq hleaf hlink
    dsimp only at h₁
    split_ifs at h₁ with hempty
    · cases h₁
    · obtain ⟨rightPage, s₂, hright, h₂⟩ := bind_eq_ok.mp h₁
      obtain ⟨_, s₃, hsplit, h₃⟩ := bind_eq_ok.mp h₂
      obtain ⟨hfresh, htouched, hlt, hcount', -⟩ := allocateNodePage_touched hright
      have hnot := hf.leaves.not_mem_of_none hfresh
      have hpos : 0 < rightPage := by
        rw [hcount']
        exact Nat.zero_lt_of_lt (lt_length_of_linkAt hf.root)
      have hne : leafPage ≠ rightPage := fun heq => hnot (heq ▸ hleaf)
      have hrootRight : link.pageId ≠ rightPage := by
        intro heq
        rw [← heq, hf.root] at hfresh
        cases hfresh
      have hrootLeaf : link.pageId ≠ leafPage := fun heq => hf.root_not_mem (heq ▸ hleaf)
      have hs₂ := hf.leaves.touched htouched hnot
      have hroot_lt : link.pageId < 2 ^ 64 := hf.root_valid.2.trans (by decide)
      have hok' : HeaderOk { currentHeader with isRoot := false, parentPageId := link.pageId } :=
        ⟨hroot_lt, hok.next_lt⟩
      obtain ⟨s₂', ht₂, ht₃, hs₃⟩ := writeSplitLeaves_siblings hok' rfl hnext
        (hf.leaves leafPage hleaf).1 ⟨hpos, hlt hsize⟩ hne (fun j hj _ => hs₂ j hj) hsplit
      have hread₃ := ht₃.readInternal hrootRight
        (ht₂.readInternal hrootLeaf (htouched.readInternal hrootRight hread))
      have hf₃ : Family ({leafPage, rightPage} ∪ L) link.pageId s₃ := by
        refine ⟨hs₃, ?_, hf.root_valid⟩
        rw [ht₃.others _ hrootRight, ht₂.others _ hrootLeaf, htouched.others _ hrootRight]
        exact hf.root
      have hmeta : s₃.metadata = s₁.metadata := by
        rw [ht₃.metadata_eq, ht₂.metadata_eq, htouched.metadata_eq]
      have hcfg : s₃.cfg = s₁.cfg := by
        rw [ht₃.cfg_eq, ht₂.cfg_eq, htouched.cfg_eq]
      refine ⟨{leafPage, rightPage} ∪ L, fun j hj => by simp [hj], ?_⟩
      rw [← hcfg, ← hmeta]
      rcases insertIntoInternal_family hf₃ hread₃ hindex h₃ with hroom | ⟨hfull, hgrown⟩
      · exact .inl hroom
      · exact .inr ⟨hfull, hgrown.leaves, by rw [hgrown.first_eq, hmeta],
          by rw [hgrown.height_eq, hmeta]⟩

theorem splitLeaf_lone (hlink : linkAt s leafPage = some ⟨.kLeaf, p, next⟩)
    (hnext : next = invalidPageId) (hleaf : 0 < leafPage ∧ leafPage < 2 ^ 63)
    (hsize : 0 < s.pageManager.pageSize) (hheight : s.metadata.treeHeight = 1)
    (hrun : splitLeaf leafPage [] es s = (.ok (), s')) :
    s'.metadata.treeHeight = 2 ∧ ∃ L, s'.metadata.firstLeafPageId ∈ L ∧
      Family L s'.metadata.rootPageId s' := by
  unfold splitLeaf at hrun
  rw [read_bind] at hrun
  split_ifs at hrun with hcount
  · cases hrun
  · obtain ⟨⟨currentHeader, current⟩, s₁, hcurrent, h₁⟩ := bind_eq_ok.mp hrun
    obtain ⟨rfl, hlink', hok⟩ := readLeaf_link hcurrent
    have hcurrentNext : currentHeader.nextLeafPageId = invalidPageId := by
      rw [hlink', leafLink] at hlink
      cases hlink
      exact hnext
    dsimp only at h₁
    split_ifs at h₁ with hempty
    · cases h₁
    · obtain ⟨rightPage, s₂, hright, h₂⟩ := bind_eq_ok.mp h₁
      obtain ⟨rootPage, s₃, hroot, h₃⟩ := bind_eq_ok.mp h₂
      obtain ⟨_, s₄, hsplit, h₄⟩ := bind_eq_ok.mp h₃
      obtain ⟨_, s₅, hwrite, hsave⟩ := bind_eq_ok.mp h₄
      obtain ⟨-, ht₂, hlt₂, hid₂, hcount₂⟩ := allocateNodePage_touched hright
      obtain ⟨-, ht₃, hlt₃, hid₃, -⟩ := allocateNodePage_touched hroot
      have hlength := lt_length_of_linkAt hlink
      have hneRight : leafPage ≠ rightPage := by omega
      have hneRoot : leafPage ≠ rootPage := by omega
      have hrootRight : rootPage ≠ rightPage := by omega
      have hrootPos : 0 < rootPage ∧ rootPage < 2 ^ 63 :=
        ⟨by omega, hlt₃ (by rw [ht₂.pageSize_eq]; exact hsize)⟩
      have hok' : HeaderOk { currentHeader with isRoot := false, parentPageId := rootPage } :=
        ⟨hrootPos.2.trans (by decide), hok.next_lt⟩
      obtain ⟨s₃', ht₄, ht₄', hs₄⟩ := writeSplitLeaves_siblings (L := ∅) hok' rfl
        (.inl hcurrentNext) hleaf ⟨by omega, hlt₂ hsize⟩ hneRight (by simp) hsplit
      have hw := writeInternal_wrote hwrite ⟨invalidPageId_lt, invalidPageId_lt⟩
      have hnotRoot : rootPage ∉ ({leafPage, rightPage} ∪ ∅ : Set ℕ) := by
        simp [hneRoot.symm, hrootRight]
      have hs₅ := hs₄.touched hw.toTouched hnotRoot
      obtain ⟨hlinks, hmeta⟩ := saveMetadata_links hsave
      rw [hmeta]
      refine ⟨?_, {leafPage, rightPage} ∪ ∅, by simp, ?_, ?_, hrootPos⟩
      · rw [hw.metadata_eq, ht₄'.metadata_eq, ht₄.metadata_eq, ht₃.metadata_eq, ht₂.metadata_eq,
          hheight]
        norm_num
      · exact hs₅.of_links fun j hj => hlinks j (hs₅ j hj).1.1.ne'
      · rw [hlinks _ hrootPos.1.ne', hw.link_eq]
        rfl

theorem insertFirst_lone {rid : ℕ} (hlength : 0 < s.pageManager.pages.length)
    (hrun : insertFirst key rid s = (.ok (), s')) : Lone s' := by
  unfold insertFirst writeFirstLeaf at hrun
  obtain ⟨rootPage, s₁, halloc, h₁⟩ := bind_eq_ok.mp hrun
  obtain ⟨_, s₂, hwrite, hsave⟩ := bind_eq_ok.mp h₁
  obtain ⟨-, -, -, hid, -⟩ := allocateNodePage_touched halloc
  have hw := writeLeaf_wrote hwrite ⟨invalidPageId_lt, invalidPageId_lt⟩
  obtain ⟨hlinks, hmeta⟩ := saveMetadata_links hsave
  rw [Lone, hmeta]
  refine ⟨rfl, invalidPageId, ?_⟩
  rw [hlinks _ (by dsimp only; omega), hw.link_eq]
  rfl

end Splits

end CourseDb.BStarTree

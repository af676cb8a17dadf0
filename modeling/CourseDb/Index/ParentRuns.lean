import CourseDb.Index.ParentPointers

/-! # Parent pointers over whole runs

A tree of at most two levels has the right parent pointers, and an insertion
that splits the root of a two-level tree leaves a tree that has not. Which of the
two an insertion does can be read off the pages before it.
-/

namespace CourseDb.BStarTree

open Fallible (read_bind bind_ok bind_eq_ok ite_bind_ok)
open BTree

variable {cfg : Config} {s s' s₁ : BStarTree} {m : TreeMetadata} {M : NodeCells} {H : ℕ}
  {E E' : List LeafEntry} {id p : ℕ} {L : Set ℕ} {key : Value} {rid : ℕ} {isRoot : Bool}
  {children : List ℕ} {next : ℕ} {link : SearchPathEntry}

section Tree

variable {T : IndexTree H}

theorem Holds.linkAt_leaf {entries : List LeafEntry} (hs : Holds cfg s m M)
    (hmem : (id, .leaf isRoot next entries) ∈ M) :
    ∃ parent, linkAt s id = some ⟨.kLeaf, parent, next⟩ := by
  obtain ⟨header, hread, -, -, -, hnext⟩ := hs.readLeaf hmem
  obtain ⟨-, hlink, -⟩ := readLeaf_link hread
  rw [leafLink, hnext] at hlink
  exact ⟨_, hlink⟩

/-- All leaves of a tree whose first leaf is a sibling are siblings. -/
theorem Siblings.leaves_mem {leaves : List (Leaf LeafEntry)} {current : ℕ} (h : Siblings L p s)
    (hs : Holds cfg s m M)
    (hcells : ∀ l ∈ leaves, ∃ isRoot, (l.id, .leaf isRoot l.next l.entries) ∈ M)
    (hleads : Leads current (leaves.map fun l => (l.id, l.next)) invalidPageId)
    (hcurrent : current ∈ L) : ∀ l ∈ leaves, l.id ∈ L := by
  induction leaves generalizing current with
  | nil => simp
  | cons l leaves ih =>
    obtain ⟨hid, hrest⟩ := hleads
    obtain rfl : current = l.id := hid
    refine List.forall_mem_cons.mpr ⟨hcurrent, ?_⟩
    cases leaves with
    | nil => simp
    | cons l' leaves =>
      have hcells' := fun x hx => hcells x (List.mem_cons_of_mem l hx)
      have hnext : l.next = l'.id := hrest.1
      have hne : l.next ≠ invalidPageId := by
        obtain ⟨isRoot, hmem⟩ := hcells' l' List.mem_cons_self
        have hlt : l'.id < 2 ^ 63 := hs.id_lt hmem
        rw [hnext, invalidPageId]
        omega
      obtain ⟨isRoot, hmem⟩ := hcells l List.mem_cons_self
      obtain ⟨parent, hlink⟩ := hs.linkAt_leaf hmem
      obtain ⟨-, next, hlink', hlinked⟩ := h l.id hcurrent
      rw [hlink] at hlink'
      cases hlink'
      exact ih hcells' hrest (hlinked.resolve_left hne)

theorem Laid.leaves_mem (hlaid : Laid cfg s m E T) (h : Siblings L p s)
    (hfirst : m.firstLeafPageId ∈ L) : ∀ l ∈ T.leaves, l.id ∈ L := by
  have hleads := hlaid.shows.leads
  rw [Tree.links_flat] at hleads
  exact h.leaves_mem hlaid.holds (fun l hl => Tree.leaf_mem_cells true T hl) hleads hfirst

theorem Stored.laid (hst : Stored cfg s m E T) : Laid cfg s m E T :=
  ⟨hst.holds, hst.root_eq, hst.height_eq, hst.shows⟩

theorem Laid.listed {T : IndexTree 1} (hlaid : Laid cfg s m E T)
    (hleaves : ∀ l ∈ T.leaves, l.id ∈ L) (hpage : link.pageId = T.rootId)
    (hindex : link.childIndex ≤ T.keyCount) : Listed L link s := by
  obtain ⟨header, hread, -⟩ := hlaid.holds.readInternal (Tree.rootId_mem_cells true T)
  rw [← hpage] at hread
  constructor
  · intro header' node s'' hread' c hc
    rw [hread] at hread'
    cases hread'
    obtain ⟨l, hl, rfl⟩ := Tree.exists_leaf_of_mem_children hc
    exact hleaves l hl
  · intro header' node s'' hread'
    rw [hread] at hread'
    cases hread'
    rw [Tree.children_length]
    omega

theorem Stored.parentsRight_lone {T : IndexTree 0} (hst : Stored cfg s m E T) (h : Lone s) :
    ParentsRight s := by
  intro _
  obtain ⟨-, next, hlink⟩ := h
  refine ⟨parentAt_of_linkAt hlink, fun {d id} isRoot separators children child hreach hview hc => ?_⟩
  rw [hst.holds.metadata_eq, hst.root_eq] at hreach
  obtain ⟨h, C, X, rfl, rfl, -⟩ := hreach.exists_focus hst.holds.agrees
  have hheight : h = 0 := Nat.le_zero.mp C.height_le
  subst hheight
  rw [hst.holds.agrees.plug.look_root] at hview
  obtain ⟨id, next, entries, rfl⟩ := X.exists_leaf
  cases hview

theorem Stored.parentsRight_family {T : IndexTree 1} (hst : Stored cfg s m E T)
    (hf : Family L m.rootPageId s) (hfirst : m.firstLeafPageId ∈ L) : ParentsRight s := by
  have hleaves := hst.laid.leaves_mem hf.leaves hfirst
  intro _
  rw [hst.holds.metadata_eq]
  refine ⟨parentAt_of_linkAt hf.root, fun {d id} isRoot separators children child hreach hview hc => ?_⟩
  rw [hst.root_eq] at hreach
  obtain ⟨h, C, X, rfl, rfl, -⟩ := hreach.exists_focus hst.holds.agrees
  rw [hst.holds.agrees.plug.look_root] at hview
  cases h with
  | zero =>
    obtain ⟨id, next, entries, rfl⟩ := X.exists_leaf
    cases hview
  | succ h =>
    cases C with
    | frame id left right up => exact absurd up.height_le (by omega)
    | top =>
      cases hview
      obtain ⟨l, hl, rfl⟩ := Tree.exists_leaf_of_mem_children hc
      obtain ⟨-, next, hlink, -⟩ := hf.leaves _ (hleaves l hl)
      rw [parentAt_of_linkAt hlink, hst.root_eq]
      rfl

/-- The leaves of a three-level tree cannot all have the same parent. -/
theorem Stored.not_parentsRight {T : IndexTree 2} (hst : Stored cfg s m E T)
    (h : Siblings L p s) (hfirst : m.firstLeafPageId ∈ L) : ¬ ParentsRight s := by
  intro hright
  obtain ⟨-, hparents⟩ := hright hst.root_ne
  rw [hst.holds.metadata_eq, hst.root_eq] at hparents
  have hleaves := hst.laid.leaves_mem h hfirst
  have hT := hst.holds.agrees
  have hall : ∀ c ∈ T.children, c = p := by
    intro c hc
    obtain ⟨left, x, right, hfill, rfl⟩ := Tree.exists_fill_of_mem_children hc
    obtain ⟨id, first, rest, rfl⟩ := x.exists_branch
    have hreach := Reach.root.child hT.look_root hc
    have hcells : (Tree.branch id first rest).cells false ≤ T.cells true := by
      rw [hfill]
      exact Tree.cells_le_fill _ _ _ _ _
    have hview := (hT.mono hcells).look_root
    have hparent := hparents hreach hview List.mem_cons_self
    obtain ⟨l, hl, hid⟩ := Tree.exists_leaf_of_mem_children
      (t := Tree.branch id first rest) List.mem_cons_self
    have hmem : l ∈ T.leaves := by
      rw [hfill, Tree.leaves_fill]
      simp [hl]
    obtain ⟨-, next, hlink, -⟩ := h _ (hleaves l hmem)
    rw [← hid, parentAt_of_linkAt hlink] at hparent
    exact (Option.some.inj hparent).symm
  have hnodup : T.children.Nodup :=
    Multiset.coe_nodup.mp (Multiset.nodup_of_le (T.children_le true) hst.holds.nodup)
  rw [List.eq_replicate_of_mem hall, List.nodup_replicate, Tree.children_length] at hnodup
  have hcount : 1 ≤ T.keyCount := hst.sized.1.1
  omega

/-- The tree has at most two levels, with the right parent pointers. -/
def Paired (s : BStarTree) : Prop :=
  s.metadata.rootPageId = invalidPageId ∨ Lone s ∨
    s.metadata.treeHeight = 2 ∧ ∃ L, s.metadata.firstLeafPageId ∈ L ∧
      Family L s.metadata.rootPageId s

theorem Paired.of_lone (h : Lone s) : Paired s := .inr (.inl h)

/-- Which of the three cases a stored tree is in can be told from its height. -/
theorem Stored.paired_cases (hst : Stored cfg s m E T) (h : Paired s) : H = 0 ∧ Lone s ∨
      H = 1 ∧ ∃ L, m.firstLeafPageId ∈ L ∧ Family L m.rootPageId s := by
  have hheight := hst.height_eq
  rcases h with hnone | ⟨hone, hlone⟩ | ⟨htwo, hfamily⟩
  · exact absurd hnone hst.root_ne
  · have hzero : H = 0 := by
      rw [hst.holds.metadata_eq] at hone
      omega
    exact .inl ⟨hzero, hone, hlone⟩
  · rw [hst.holds.metadata_eq] at htwo hfamily
    exact .inr ⟨by omega, hfamily⟩

theorem Represents.parentsRight (hrep : Represents cfg s E) (h : Paired s) : ParentsRight s := by
  cases hrep with
  | empty hs hroot hfirst hheight =>
    intro hne
    rw [hs.metadata_eq] at hne
    exact absurd hroot hne
  | tree hst =>
    rcases hst.paired_cases h with ⟨rfl, hlone⟩ | ⟨rfl, L, hfirst, hf⟩
    · exact hst.parentsRight_lone hlone
    · exact hst.parentsRight_family hf hfirst

end Tree

section Delete

variable {C : IndexCtx 0 H} {next : ℕ} {entries : List LeafEntry} {e : LeafEntry}

/-- A deletion empties the tree, or writes the leaf and perhaps separators with their links and
then rebalances. -/
theorem deleteFromLeaf_links (hv : cfg.Valid)
    (hst : Stored cfg s m E (C.plug (Tree.leaf id next entries))) (hrouted : C.Routed key)
    (hpresent : lookup LeafEntry.key E key = some e)
    (hrun : deleteFromLeaf id (searchPath C) key s = (.ok (), s')) :
    s'.metadata.rootPageId = invalidPageId ∨
      ∃ (E' remaining : List LeafEntry) (C' : IndexCtx 0 H) (s₂ : BStarTree), SameLinks s s₂ ∧
        SameShape cfg C C' ∧ Laid cfg s₂ m E' (C'.plug (Tree.leaf id next remaining)) ∧
        (s' = s₂ ∨ rebalanceAfterDelete id (searchPath C) s₂ = (.ok (), s')) := by
  obtain ⟨E', remaining, header, hread, -, hentry, hremaining, -, -, -, hrewrite⟩ :=
    exists_remaining hv hst hrouted hpresent
  obtain ⟨-, hlink, hok⟩ := readLeaf_link hread
  have hlinks : ∀ {s₁ s₂} (c : Prop) [Decidable c], writeLeaf id header remaining s = (.ok (), s₁) →
      (if c then updateParentSeparatorAfterChildChange (frontKey remaining) (searchPath C)
        else (pure () : Action Unit)) s₁ = (.ok (), s₂) → SameLinks s s₂ := by
    intro s₁ s₂ c _ hwrite hrefresh
    refine ((writeLeaf_wrote hwrite hok).same hlink).trans ?_
    split_ifs at hrefresh
    · exact updateParentSeparator_same hrefresh
    · cases hrefresh
      exact SameLinks.refl _
  unfold deleteFromLeaf at hrun
  rw [read_bind, bind_ok hread] at hrun
  dsimp only at hrun
  rw [hentry, if_neg (by simp), hremaining] at hrun
  by_cases hroot : header.isRoot = true
  · rw [if_pos hroot] at hrun
    by_cases hempty : remaining.isEmpty = true
    · rw [if_pos hempty] at hrun
      obtain ⟨-, hmeta⟩ := saveMetadata_links hrun
      exact .inl (by rw [hmeta])
    · rw [if_neg hempty] at hrun
      obtain ⟨C', s₁, s₂, hwrite, hrefresh, hshape, hlaid⟩ :=
        hrewrite (findEntryPosition entries key = 0) (fun _ => by simpa using hempty)
      rw [bind_ok hwrite, hrefresh] at hrun
      cases hrun
      exact .inr ⟨E', remaining, C', s', hlinks _ hwrite hrefresh, hshape, hlaid, .inl rfl⟩
  · rw [if_neg hroot] at hrun
    obtain ⟨C', s₁, s₂, hwrite, hrefresh, hshape, hlaid⟩ :=
      hrewrite ((!remaining.isEmpty) = true ∧ findEntryPosition entries key = 0)
        (fun hc => by simpa using hc.1)
    rw [bind_ok hwrite] at hrun
    have hrest := (ite_bind_ok (f := fun _ =>
      if (Node.leaf header remaining).isUnderfull s.cfg then rebalanceAfterDelete id (searchPath C)
      else pure ()) hrefresh).symm.trans hrun
    refine .inr ⟨E', remaining, C', s₂, hlinks _ hwrite hrefresh, hshape, hlaid, ?_⟩
    split_ifs at hrest
    · exact .inr hrest
    · cases hrest
      exact .inl rfl

theorem Lone.same (h : Lone s) (hsame : SameLinks s s') : Lone s' := by
  obtain ⟨hheight, next, hlink⟩ := h
  exact ⟨by rw [hsame.2, hheight], next, by rw [hsame.1, hsame.2, hlink]⟩

theorem Paired.of_family (hf : Family L m.rootPageId s) (hmeta : s.metadata = m)
    (hheight : m.treeHeight = 2) (hfirst : m.firstLeafPageId ∈ L) : Paired s := by
  subst hmeta
  exact .inr (.inr ⟨hheight, L, hfirst, hf⟩)

theorem rebalanceAfterDelete_family (hf : Family L link.pageId s) (hleaf : id ∈ L)
    (hlists : Listed L link s) (hrun : rebalanceAfterDelete id [link] s = (.ok (), s')) :
    Kept L link.pageId s s' := by
  unfold rebalanceAfterDelete at hrun
  obtain ⟨outcome, s₁, hnode, hend⟩ := bind_eq_ok.mp hrun
  obtain rfl : s₁ = s' := by cases outcome <;> cases hend <;> rfl
  exact rebalanceNode_family hf hleaf hlists hnode

theorem delete_paired (hv : cfg.Valid) (hrep : Represents cfg s E) (h : Paired s)
    (hkey : KeyOk cfg key) (hpresent : lookup LeafEntry.key E key = some e)
    (hrun : delete key s = (.ok (), s')) : Paired s' := by
  cases hrep with
  | empty hs => cases hpresent
  | @tree m H _ _ hst =>
    obtain ⟨C, id, next, entries, rfl, hrouted, hfind⟩ := hst.findPathToLeaf key
    unfold delete at hrun
    rw [read_bind, hst.holds.isOpen, if_neg (by simp),
      bind_ok (hkey.validate hv hst.holds), if_neg hst.root_ne,
      bind_ok hfind, hpresent] at hrun
    rcases deleteFromLeaf_links hv hst hrouted hpresent hrun with
      hempty | ⟨E', remaining, C', s₂, hsame, hshape, hlaid, hend⟩
    · exact .inl hempty
    · rcases hst.paired_cases h with ⟨rfl, hlone⟩ | ⟨rfl, L, hfirst, hf⟩
      · obtain rfl := C.eq_top
        obtain rfl : s' = s₂ := by
          rcases hend with rfl | hend
          · rfl
          · cases hend
            rfl
        exact Paired.of_lone (hlone.same hsame)
      · obtain ⟨pid, left, right, rfl⟩ := C'.exists_frame
        have hf₂ := hf.same hsame
        have hmeta : s₂.metadata = m := hsame.2.trans hst.holds.metadata_eq
        have hroot : m.rootPageId = pid := by
          rw [hlaid.root_eq, Ctx.plug, Ctx.plug, Tree.rootId_fill]
        rcases hend with rfl | hend
        · exact Paired.of_family hf₂ hmeta hst.height_eq hfirst
        · have hleaves := hlaid.leaves_mem hf₂.leaves hfirst
          have hleaf : id ∈ L := hleaves ⟨id, next, remaining⟩ (by
            rw [Ctx.leaves_plug, Tree.leaves_leaf]
            simp)
          rw [← hshape.path_eq] at hend
          rw [hroot] at hf₂
          have hlisted : Listed L ⟨pid, left.length⟩ s₂ := by
            apply hlaid.listed hleaves
            · simp [Ctx.plug]
            · simp [Ctx.plug]
          rcases rebalanceAfterDelete_family hf₂ hleaf hlisted hend with ⟨hf', hmeta'⟩ | hlone
          · rw [← hroot] at hf'
            exact Paired.of_family hf' (hmeta'.trans hmeta) hst.height_eq hfirst
          · exact Paired.of_lone hlone

end Delete

section Crowded

variable {pid next : ℕ} {left right : IndexSiblings 0} {entries es : List LeafEntry}

def FullLeaf (s : BStarTree) (id : ℕ) : Prop :=
  ∃ isRoot next entries, pageView s id = some (.leaf isRoot next entries) ∧
    entries.length = maxKeysPerNode s.cfg

/-- The root is full, and so are the leaf under it that a key belongs to and, if there is one,
the leaf to its right. -/
def Crowded (s : BStarTree) (key : Value) : Prop :=
  ∃ isRoot separators children,
    pageView s s.metadata.rootPageId = some (.branch isRoot separators children) ∧
    separators.length = maxKeysPerNode s.cfg ∧
    ∀ id ∈ (children.drop (chooseChildIndex ⟨separators, children⟩ key)).take 2, FullLeaf s id

theorem fullLeaf_iff {x : IndexTree 0} (hx : Agrees (pageView s) (x.cells isRoot)) :
    FullLeaf s x.rootId ↔ x.keyCount = maxKeysPerNode s.cfg := by
  have hview := hx.look_root
  obtain ⟨id, next, entries, rfl⟩ := x.exists_leaf
  constructor
  · rintro ⟨isRoot', next', entries', hview', hfull⟩
    rw [hview] at hview'
    cases hview'
    exact hfull
  · exact fun hfull => ⟨_, _, _, hview, hfull⟩

theorem chooseChildIndex_of_routed
    (hrouted : (Ctx.frame pid left right (.top : IndexCtx 1 1)).Routed key) :
    chooseChildIndex ⟨(left.map Prod.fst).reverse ++ right.map Prod.fst, children⟩ key =
      left.length := by
  obtain ⟨hleft, hright, -⟩ := hrouted
  rw [chooseChildIndex, List.takeWhile_append_of_pos]
  · cases right with
    | nil => simp
    | cons p right =>
      have hlt : key < p.1 := hright p rfl
      simp [Value.less_eq_decide, hlt]
  · intro k hk
    obtain ⟨p, hp, rfl⟩ := List.mem_map.mp (List.mem_reverse.mp hk)
    simpa [Value.less_eq_decide] using hleft p hp

theorem crowded_iff
    (hst : Stored cfg s m E ((Ctx.frame pid left right .top).plug (Tree.leaf id next entries)))
    (hrouted : (Ctx.frame pid left right (.top : IndexCtx 1 1)).Routed key) :
    Crowded s key ↔ left.length + right.length = maxKeysPerNode cfg ∧
      entries.length = maxKeysPerNode cfg ∧
      ∀ p ∈ right.head?, p.2.keyCount = maxKeysPerNode cfg := by
  have hT := hst.holds.agrees
  have hroot : pageView s s.metadata.rootPageId = some (.branch true
      ((left.map Prod.fst).reverse ++ right.map Prod.fst)
      ((left.map fun p => p.2.rootId).reverse ++ id :: right.map fun p => p.2.rootId)) := by
    rw [hst.holds.metadata_eq, hst.root_eq, hT.look_root]
    simp [Ctx.plug]
  have hleaf : FullLeaf s id ↔ entries.length = maxKeysPerNode cfg := by
    rw [← hst.holds.cfg_eq]
    exact fullLeaf_iff hT.plug
  have hsibling : ∀ p ∈ right.head?,
      (FullLeaf s p.2.rootId ↔ p.2.keyCount = maxKeysPerNode cfg) := by
    intro p hp
    obtain ⟨right', rfl⟩ := List.head?_eq_some_iff.mp hp
    rw [← hst.holds.cfg_eq]
    exact fullLeaf_iff (hT.mono (Tree.cells_le_fill pid ((p.1, _) :: left) p.2 right' true))
  have htake : (((left.map fun p => p.2.rootId).reverse ++ id :: right.map fun p =>
      p.2.rootId).drop left.length).take 2 = id :: (right.head?.map fun p => p.2.rootId).toList := by
    rw [List.drop_append_of_le_length (by simp), List.drop_of_length_le (by simp)]
    cases right <;> rfl
  constructor
  · rintro ⟨isRoot, separators, children, hview, hfull, hchildren⟩
    rw [hroot] at hview
    cases hview
    rw [chooseChildIndex_of_routed hrouted, htake] at hchildren
    rw [hst.holds.cfg_eq] at hfull
    refine ⟨by simpa using hfull, hleaf.mp (hchildren id List.mem_cons_self), fun p hp => ?_⟩
    exact (hsibling p hp).mp (hchildren _ (by simp [Option.mem_def.mp hp]))
  · rintro ⟨hfull, hentries, hright⟩
    refine ⟨_, _, _, hroot, by simpa [hst.holds.cfg_eq] using hfull, ?_⟩
    rw [chooseChildIndex_of_routed hrouted, htake]
    intro j hj
    rcases List.mem_cons.mp hj with rfl | hj
    · exact hleaf.mpr hentries
    · obtain ⟨p, hp, rfl⟩ := Option.map_eq_some_iff.mp (Option.mem_toList.mp hj)
      exact (hsibling p hp).mpr (hright p hp)

/-- A leaf with one entry too many keeps them if its right sibling is full, or if it has none. -/
theorem redistributeLeaf_false_iff (hv : cfg.Valid)
    (hst : Stored cfg s m E ((Ctx.frame pid left right .top).plug (Tree.leaf id next entries)))
    (hes : ∀ e ∈ es, EntryOk cfg e) (hlength : es.length = maxKeysPerNode cfg + 1) :
    redistributeLeafWithRightSibling id [⟨pid, left.length⟩] es s = (.ok false, s) ↔
      ∀ p ∈ right.head?, p.2.keyCount = maxKeysPerNode cfg := by
  have hdeg := hv.degree
  have hmin : 2 * minKeysPerNonRootNode cfg ≤ maxKeysPerNode cfg := by
    rw [minKeysPerNonRootNode, maxKeysPerNode]
    omega
  obtain ⟨⟨hs, -⟩, hC, -⟩ := hst.unplug
  cases right with
  | nil => exact iff_of_true ((redistribute_no_sibling hs).1 es) (by simp)
  | cons p right =>
    obtain ⟨k, S⟩ := p
    obtain ⟨bid, bnext, bes, rfl⟩ := S.exists_leaf
    obtain ⟨hS, hsized⟩ := Ctx.sized_right_iff.mp hC
    have hle : bes.length ≤ maxKeysPerNode cfg := hS.1.2
    rcases redistributeLeaf_spec hv hs hes hsized with
      ⟨x, y, s', hxy, ⟨-, hx⟩, ⟨-, hy⟩, hrun, -⟩ | ⟨hrun, hnumber⟩
    · have hsum := congrArg List.length hxy
      rw [List.length_append, List.length_append] at hsum
      have hshared : redistributeLeafWithRightSibling id [⟨pid, left.length⟩] es s =
        (.ok true, s') := hrun
      rw [hshared]
      refine iff_of_false (by simp) fun hfull => ?_
      have hbes : bes.length = maxKeysPerNode cfg := hfull _ rfl
      omega
    · refine iff_of_true hrun ?_
      rintro p hp
      cases hp
      rw [Tree.keyCount_leaf]
      omega

end Crowded

section Insert

variable {link : SearchPathEntry} {header leafHeader : NodeHeader} {node : InternalNodeData}
  {entries : List LeafEntry}

/-- The leaf overflows, its right sibling cannot help, and the parent is full. -/
def Overflows (s : BStarTree) (id : ℕ) (link : SearchPathEntry) (node : InternalNodeData)
    (es : List LeafEntry) : Prop :=
  maxKeysPerNode s.cfg < es.length ∧
    redistributeLeafWithRightSibling id [link] es s = (.ok false, s) ∧
    maxKeysPerNode s.cfg ≤ node.separatorKeys.length

theorem insertIntoLeaf_family (hf : Family L link.pageId s) (hleaf : id ∈ L)
    (hlists : Listed L link s) (hsize : 0 < s.pageManager.pageSize)
    (hread : readInternal link.pageId s = (.ok (header, node), s))
    (hindex : link.childIndex ≤ node.separatorKeys.length)
    (hentries : readLeaf id s = (.ok (leafHeader, entries), s))
    (hrun : insertIntoLeaf id [link] key rid s = (.ok (), s')) :
    ∃ L', L ⊆ L' ∧
      (¬ Overflows s id link node (entries.insertIdx (findEntryPosition entries key) ⟨key, rid⟩) ∧
          Family L' link.pageId s' ∧ s'.metadata = s.metadata ∨
        Overflows s id link node (entries.insertIdx (findEntryPosition entries key) ⟨key, rid⟩) ∧
          Outgrown L' link.pageId s s') := by
  obtain ⟨-, hlink, hok⟩ := readLeaf_link hentries
  unfold insertIntoLeaf at hrun
  rw [read_bind, bind_ok hentries] at hrun
  dsimp only at hrun
  generalize entries.insertIdx (findEntryPosition entries key) ⟨key, rid⟩ = es at hrun ⊢
  by_cases hfits : es.length ≤ maxKeysPerNode s.cfg
  · rw [if_pos hfits] at hrun
    obtain ⟨_, s₁, hwrite, hrefresh⟩ := bind_eq_ok.mp hrun
    have hsame₁ := (writeLeaf_wrote hwrite hok).same hlink
    have hsame : SameLinks s s' := by
      refine hsame₁.trans ?_
      split_ifs at hrefresh
      · exact updateParentSeparator_same hrefresh
      · cases hrefresh
        exact SameLinks.refl _
    exact ⟨L, subset_rfl, .inl ⟨fun ho => absurd ho.1 (not_lt.mpr hfits), hf.same hsame,
      hsame.2⟩⟩
  · rw [if_neg hfits] at hrun
    obtain ⟨shared, s₁, hshare, h₁⟩ := bind_eq_ok.mp hrun
    rcases redistributeLeaf_family hf hleaf hlists hshare with ⟨rfl, rfl⟩ | ⟨rfl, hf₁, hmeta⟩
    · rw [if_neg Bool.false_ne_true] at h₁
      obtain ⟨L', hsub, hroom | hfull⟩ := splitLeaf_family hf hleaf hsize hread hindex h₁
      · exact ⟨L', hsub, .inl ⟨fun ho => absurd ho.2.2 (not_le.mpr hroom.1), hroom.2⟩⟩
      · exact ⟨L', hsub, .inr ⟨⟨not_le.mp hfits, hshare, hfull.1⟩, hfull.2⟩⟩
    · cases h₁
      refine ⟨L, subset_rfl, .inl ⟨fun ho => ?_, hf₁, hmeta⟩⟩
      have hfalse := ho.2.1
      rw [hshare] at hfalse
      cases hfalse

theorem insertIntoLeaf_lone (hst : Stored cfg s m E (Tree.leaf id next entries)) (h : Lone s)
    (hsize : 0 < s.pageManager.pageSize) (hrun : insertIntoLeaf id [] key rid s = (.ok (), s')) :
    Paired s' := by
  obtain ⟨header, hread, -, -, -, hheader⟩ :=
    hst.holds.readLeaf (Tree.rootId_mem_cells true (Tree.leaf id next entries))
  have hread' : readLeaf id s = (.ok (header, entries), s) := hread
  obtain ⟨-, hlink, hok⟩ := readLeaf_link hread'
  have hroot : s.metadata.rootPageId = id := by
    rw [hst.holds.metadata_eq, hst.root_eq, Tree.rootId_leaf]
  have hlast : next = invalidPageId := by
    have hleads := hst.shows.leads
    rw [Tree.links_flat, Tree.leaves_leaf] at hleads
    exact hleads.2
  unfold insertIntoLeaf at hrun
  rw [read_bind, bind_ok hread'] at hrun
  dsimp only at hrun
  generalize entries.insertIdx (findEntryPosition entries key) ⟨key, rid⟩ = es at hrun ⊢
  by_cases hfits : es.length ≤ maxKeysPerNode s.cfg
  · rw [if_pos hfits] at hrun
    obtain ⟨_, s₁, hwrite, hrefresh⟩ := bind_eq_ok.mp hrun
    have hsame := (writeLeaf_wrote hwrite hok).same hlink
    obtain rfl : s₁ = s' := by
      split_ifs at hrefresh <;> cases hrefresh <;> rfl
    exact Paired.of_lone (h.same hsame)
  · rw [if_neg hfits] at hrun
    have hid : 0 < id ∧ id < 2 ^ 63 :=
      ⟨hst.holds.pos _ (Tree.rootId_mem_cells true _),
        hst.holds.id_lt (Tree.rootId_mem_cells true _)⟩
    obtain ⟨hheight, L, hfirst, hf⟩ :=
      splitLeaf_lone hlink (hheader.trans hlast) hid hsize h.1 hrun
    exact .inr (.inr ⟨hheight, L, hfirst, hf⟩)

theorem overflows_iff_crowded (hv : cfg.Valid) {pid : ℕ} {left right : IndexSiblings 0}
    {es : List LeafEntry}
    (hst : Stored cfg s m E ((Ctx.frame pid left right .top).plug (Tree.leaf id next entries)))
    (hrouted : (Ctx.frame pid left right (.top : IndexCtx 1 1)).Routed key)
    (hes : ∀ e ∈ es, EntryOk cfg e) (hlength : es.length = entries.length + 1) :
    Overflows s id ⟨pid, left.length⟩
        ⟨(left.map Prod.fst).reverse ++ right.map Prod.fst, children⟩ es ↔ Crowded s key := by
  have hleaf : entries.length ≤ maxKeysPerNode cfg := by
    obtain ⟨-, -, hcount, -⟩ := hst.unplug
    exact hcount.le
  have hroot : left.length + right.length ≤ maxKeysPerNode cfg := by
    have hcount := hst.sized.1.2
    rwa [Ctx.plug, Ctx.plug, Tree.keyCount_fill] at hcount
  rw [crowded_iff hst hrouted, Overflows, hst.holds.cfg_eq]
  simp only [List.length_append, List.length_reverse, List.length_map]
  constructor
  · rintro ⟨hover, hkeeps, hfull⟩
    have hentries : entries.length = maxKeysPerNode cfg := by omega
    exact ⟨le_antisymm hroot hfull, hentries,
      (redistributeLeaf_false_iff hv hst hes (by omega)).mp hkeeps⟩
  · rintro ⟨hfull, hentries, hright⟩
    exact ⟨by omega, (redistributeLeaf_false_iff hv hst hes (by omega)).mpr hright, hfull.ge⟩

/-- An insertion into a tree of two levels keeps it so, unless the root has to be split. -/
theorem insertIntoLeaf_paired (hv : cfg.Valid) {C : IndexCtx 0 1}
    (hst : Stored cfg s m E (C.plug (Tree.leaf id next entries))) (hrouted : C.Routed key)
    (hf : Family L m.rootPageId s) (hfirst : m.firstLeafPageId ∈ L) (hkey : KeyOk cfg key)
    (hrid : rid < 2 ^ 64) (hrun : insertIntoLeaf id (searchPath C) key rid s = (.ok (), s'))
    (hrep : Represents cfg s' E') :
    (¬ Crowded s key → Paired s') ∧ (Crowded s key → ¬ ParentsRight s') := by
  obtain ⟨pid, left, right, rfl⟩ := C.exists_frame
  have hroot : m.rootPageId = pid := by
    rw [hst.root_eq, Ctx.plug, Ctx.plug, Tree.rootId_fill]
  have hleaves := hst.laid.leaves_mem hf.leaves hfirst
  have hleaf : id ∈ L := hleaves ⟨id, next, entries⟩ (by
    rw [Ctx.leaves_plug, Tree.leaves_leaf]
    simp)
  have hlisted : Listed L ⟨pid, left.length⟩ s := by
    apply hst.laid.listed hleaves
    · simp [Ctx.plug]
    · simp [Ctx.plug]
  have hsize : 0 < s.pageManager.pageSize := by
    rw [hst.holds.pageSize_eq]
    exact hv.pageSize_pos
  obtain ⟨header, hread, -⟩ := hst.holds.readInternal (Tree.rootId_mem_cells true _)
  simp only [Ctx.plug, Tree.rootId_fill, Tree.separators_fill] at hread
  obtain ⟨⟨hs, -⟩, -⟩ := hst.unplug
  rw [Tree.cells_leaf, Tree.rootId_leaf] at hs
  obtain ⟨leafHeader, hleafRead, hentriesOk, -⟩ :=
    hs.readLeaf (Multiset.mem_add.mpr (.inr (Multiset.mem_singleton_self _)))
  obtain ⟨es, hes⟩ : ∃ es, es = entries.insertIdx (findEntryPosition entries key) ⟨key, rid⟩ :=
    ⟨_, rfl⟩
  have hpos : findEntryPosition entries key ≤ entries.length :=
    (List.takeWhile_prefix _).length_le
  have hlength : es.length = entries.length + 1 := by
    rw [hes, List.length_insertIdx_of_le_length hpos]
  have hok : ∀ e ∈ es, EntryOk cfg e := by
    intro e he
    rw [hes] at he
    rcases List.eq_or_mem_of_mem_insertIdx he with rfl | he
    · exact ⟨hkey, hrid⟩
    · exact hentriesOk.entry_ok e he
  rw [hroot] at hf
  obtain ⟨L', hsub, hcases⟩ := insertIntoLeaf_family hf hleaf hlisted hsize hread (by simp) hleafRead hrun
  rw [← hes] at hcases
  rw [overflows_iff_crowded hv hst hrouted hok hlength] at hcases
  rcases hcases with ⟨hno, hf', hmeta⟩ | ⟨hover, hgrown⟩
  · refine ⟨fun _ => ?_, fun hcrowded => absurd hcrowded hno⟩
    rw [← hroot] at hf'
    exact Paired.of_family hf' (hmeta.trans hst.holds.metadata_eq) hst.height_eq (hsub hfirst)
  · refine ⟨fun hcrowded => absurd hover hcrowded, fun _ => ?_⟩
    have hheight := hgrown.height_eq
    have hfirst' : s'.metadata.firstLeafPageId ∈ L' := by
      rw [hgrown.first_eq, hst.holds.metadata_eq]
      exact hsub hfirst
    rw [hst.holds.metadata_eq, hst.height_eq] at hheight
    cases hrep with
    | empty hs' hroot' hfirst'' hheight' =>
      rw [hs'.metadata_eq, hheight'] at hheight
      cases hheight
    | @tree m' H' _ _ hst' =>
      rw [hst'.holds.metadata_eq] at hheight hfirst'
      have htwo : H' = 2 := by
        rw [hst'.height_eq] at hheight
        omega
      subst htwo
      exact hst'.not_parentsRight hgrown.leaves hfirst'

theorem insert_paired (hv : cfg.Valid) (hrep : Represents cfg s E) (h : Paired s)
    (hkey : KeyOk cfg key) (hrid : rid < 2 ^ 64) (habsent : lookup LeafEntry.key E key = none)
    (hrun : insert key rid s = (.ok (), s')) (hrep' : Represents cfg s' E') :
    (¬ Crowded s key → Paired s') ∧ (Crowded s key → ¬ ParentsRight s') := by
  unfold insert at hrun
  rw [read_bind] at hrun
  cases hrep with
  | empty hs hroot hfirst hheight =>
    rw [hs.isOpen, if_neg (by simp), bind_ok (hkey.validate hv hs), hs.metadata_eq,
      if_pos hroot] at hrun
    have hlength : 0 < s.pageManager.pages.length := (List.getElem?_eq_some_iff.mp hs.metadata_page).1
    refine ⟨fun _ => Paired.of_lone (insertFirst_lone hlength hrun), ?_⟩
    -- the root page is none, so there is no page to be full
    rintro ⟨isRoot, separators, children, hview, -⟩
    have hcount := hs.count_lt
    rw [hs.metadata_eq, hroot, pageView, List.getElem?_eq_none (by rw [invalidPageId]; omega)] at hview
    cases hview
  | @tree m H _ _ hst =>
    obtain ⟨C, id, next, entries, rfl, hrouted, hfind⟩ := hst.findPathToLeaf key
    rw [hst.holds.isOpen, if_neg (by simp), bind_ok (hkey.validate hv hst.holds),
      if_neg hst.root_ne, bind_ok hfind, habsent] at hrun
    rcases hst.paired_cases h with ⟨rfl, hlone⟩ | ⟨rfl, L, hfirst, hf⟩
    · obtain rfl := C.eq_top
      have hsize : 0 < s.pageManager.pageSize := by
        rw [hst.holds.pageSize_eq]
        exact hv.pageSize_pos
      refine ⟨fun _ => insertIntoLeaf_lone hst hlone hsize hrun, ?_⟩
      rintro ⟨isRoot, separators, children, hview, -⟩
      rw [hst.holds.metadata_eq, hst.root_eq, hst.holds.agrees.look_root] at hview
      cases hview
    · exact insertIntoLeaf_paired hv hst hrouted hf hfirst hkey hrid hrun hrep'

end Insert

/-- The call inserts a new key into a tree of two levels that is full where the key belongs. -/
def SplitsBranch (s : BStarTree) : Op → Prop
  | .insert key _ => (find key s).1 = .ok none ∧ Crowded s key
  | _ => False

/-- The states that are reached before the first split of an internal node. -/
def Paired.Reached (cfg : Config) (s : BStarTree) : Prop := (∃ E, Represents cfg s E) ∧ Paired s

theorem step_paired (hv : cfg.Valid) (hsize : cfg.pageSize < 2 ^ 63) {op : Op}
    (hs : Paired.Reached cfg s) (hop : Usable cfg s op) :
    (¬ SplitsBranch s op → Paired.Reached cfg (step s op).2) ∧
      (SplitsBranch s op → ¬ ParentsRight (step s op).2) := by
  obtain ⟨⟨E, hrep⟩, hpaired⟩ := hs
  obtain ⟨a', -, E', hrep', -⟩ := step_refines hv ⟨E, hrep, rfl⟩ hsize op hop
  suffices hgoal : (¬ SplitsBranch s op → Paired (step s op).2) ∧
      (SplitsBranch s op → ¬ ParentsRight (step s op).2) from
    ⟨fun hnot => ⟨⟨E', hrep'⟩, hgoal.1 hnot⟩, hgoal.2⟩
  obtain ⟨m, M, hholds⟩ := hrep.holds
  cases op with
  | insert key rid =>
    obtain ⟨hio, hacc, hshort, hrid⟩ := hop
    have hkey := hacc.keyOk hshort
    have hfound : (find key s).1 = .ok (ridOf E key) := by
      rw [find_eq hrep (hkey.validate hv hholds)]
      rfl
    change (¬ _ → Paired (insert key rid s).2) ∧ (_ → ¬ ParentsRight (insert key rid s).2)
    rw [SplitsBranch, hfound]
    cases hlookup : lookup LeafEntry.key E key with
    | some e =>
      rw [insert_present hv hrep hkey hlookup, ridOf, hlookup]
      exact ⟨fun _ => hpaired, fun hsplit => by cases hsplit.1⟩
    | none =>
      rcases insert_runs hv hrep hkey hrid hlookup
        with ⟨e, t, hfail, rfl, -⟩ | ⟨_, s', hrun, E'', hrep'', -⟩
      · exact absurd (by rw [step, Prod.map, hfail]; rfl) hio
      · obtain ⟨hkeep, hsplit⟩ := insert_paired hv hrep hpaired hkey hrid hlookup hrun hrep''
        rw [hrun, ridOf, hlookup]
        exact ⟨fun hnot => hkeep fun hcrowded => hnot ⟨rfl, hcrowded⟩, fun h => hsplit h.2⟩
  | delete key =>
    obtain ⟨-, hacc, hshort⟩ := hop
    have hkey := hacc.keyOk hshort
    refine ⟨fun _ => ?_, False.elim⟩
    change Paired (delete key s).2
    cases hlookup : lookup LeafEntry.key E key with
    | none =>
      rw [delete_absent hv hrep hkey hlookup]
      exact hpaired
    | some e =>
      obtain ⟨E'', s', hrun, -⟩ := delete_present hv hrep hkey hlookup
      rw [hrun]
      exact delete_paired hv hrep hpaired hkey hlookup hrun
  | find key =>
    obtain ⟨-, hacc, hshort⟩ := hop
    refine ⟨fun _ => ?_, False.elim⟩
    change Paired (find key s).2
    rw [find_eq hrep ((hacc.keyOk hshort).validate hv hholds)]
    exact hpaired
  | reopen =>
    refine ⟨fun _ => ?_, False.elim⟩
    change Paired (openTree (new s.cfg s.pageManager.file)).2
    rw [openTree_reopen hv hsize hholds]
    exact hpaired

/-- The parent pointers are right in every state of a run exactly if no call of the run splits
the root of a tree of two levels. -/
theorem bstarTree_parents_iff {maxVariable : ℕ} {s₀ : BStarTree} (hfresh : Fresh cfg maxVariable s₀)
    (ops : List Op) (hops : Along step (Usable cfg) s₀ ops) :
    (∀ done, done <+: ops → ParentsRight (finalState step s₀ done)) ↔
      Along step (fun s op => ¬ SplitsBranch s op) s₀ ops := by
  obtain ⟨hv, hsize, rfl⟩ := hfresh.initial
  have hinitial : Paired.Reached cfg (initial cfg) :=
    ⟨⟨[], initial_represents cfg⟩, .inl rfl⟩
  apply Along.forall_prefix_iff (I := Paired.Reached cfg) _ _ _ hinitial hops
  · rintro s ⟨⟨E, hrep⟩, hpaired⟩
    exact hrep.parentsRight hpaired
  · intro s op hs hop
    exact (step_paired hv hsize hs hop).1
  · intro s op hs hop
    exact (step_paired hv hsize hs hop).2

theorem not_splitsBranch_of_leaf (entries : List LeafEntry)
    (hview : pageView s s.metadata.rootPageId = some (.leaf true invalidPageId entries)) :
    ¬ SplitsBranch s (.insert key rid) := by
  rintro ⟨-, isRoot, separators, children, hbranch, -⟩
  rw [hview] at hbranch
  cases hbranch

theorem bstarTree_parents_iff_int :
    Fresh smallConfig 256 (initial smallConfig) ∧
    ∀ done, done <+: [.insert (.int 5) 1, .insert (.int 3) 2, .insert (.int 4) 3,
        .insert (.int 6) 4, .delete (.int 5)] →
      ParentsRight (finalState step (initial smallConfig) done) := by
  refine ⟨smallConfig_fresh, (bstarTree_parents_iff smallConfig_fresh _ ?_).mpr ?_⟩
  · refine ⟨?_, ?_, ?_, ?_, ⟨by decide +kernel, rfl, by unfold Short; decide⟩, trivial⟩
    iterate 4 exact ⟨by decide +kernel, rfl, by unfold Short; decide, by decide⟩
  · refine ⟨?_, ?_, ?_, ?_, id, trivial⟩
    · rintro ⟨-, isRoot, separators, children, hview, -⟩
      cases hview
    · exact not_splitsBranch_of_leaf [⟨.int 5, 1⟩] (by decide +kernel)
    · exact not_splitsBranch_of_leaf [⟨.int 3, 2⟩, ⟨.int 5, 1⟩] (by decide +kernel)
    · exact not_splitsBranch_of_leaf [⟨.int 3, 2⟩, ⟨.int 4, 3⟩, ⟨.int 5, 1⟩] (by decide +kernel)

def tenInserts : List Op := (List.range 10).map fun i => .insert (.int (Int64.ofNat (i + 1))) i

/-- The fourth leaf is listed by page 7 and names page 3. -/
theorem bstarTree_parents_wrong :
    Fresh smallConfig 256 (initial smallConfig) ∧
    (trace step (initial smallConfig) tenInserts).map Prod.snd = List.replicate 10 .ok ∧
    ¬ ParentsRight (finalState step (initial smallConfig) tenInserts) := by
  refine ⟨smallConfig_fresh, by decide +kernel, fun hright => ?_⟩
  obtain ⟨s, hs⟩ : ∃ s, s = finalState step (initial smallConfig) tenInserts := ⟨_, rfl⟩
  have hroot : s.metadata.rootPageId = 8 := by rw [hs]; decide +kernel
  have hrootView : pageView s 8 = some (.branch true [.int 5] [3, 7]) := by
    rw [hs]; decide +kernel
  have hview : pageView s 7 = some (.branch false [.int 7, .int 9] [4, 5, 6]) := by
    rw [hs]; decide +kernel
  have hparent : parentAt s 4 = some 3 := by rw [hs]; decide +kernel
  rw [← hs] at hright
  obtain ⟨-, hall⟩ := hright (by rw [hroot]; decide)
  rw [hroot] at hall
  have hseven := hall (Reach.root.child hrootView (by simp)) hview (by simp : 4 ∈ [4, 5, 6])
  rw [hparent] at hseven
  cases hseven

end CourseDb.BStarTree

import CourseDb.Index.TreeStore

/-! # Sharing keys with the right sibling

Insertion and deletion both try to even out a node and its right sibling. The
separator between the two moves, everything else around them stays.
-/

namespace CourseDb.BStarTree

open Fallible (read_bind bind_ok)
open BTree
open Ctx (frame before after)
open BTree.Tree (siblingCells flat_leaf branch leaf)

variable {cfg : Config} {s : BStarTree} {m : TreeMetadata} {M : NodeCells} {h H n : ℕ}
  {C : IndexCtx h H} {α : Type} {node : InternalNodeData} {key : Value} {t : IndexTree h}
  {E es : List LeafEntry} {parentHeader : NodeHeader} {separators : List Value} {children : List ℕ}
  {k : Value} {up : IndexCtx 1 H}

/-- The key counts allowed in a node that is not the root. -/
def NodeSize (cfg : Config) (n : ℕ) : Prop :=
  minKeysPerNonRootNode cfg ≤ n ∧ n ≤ maxKeysPerNode cfg

/-- The key counts allowed in the root. -/
def RootSize (cfg : Config) (n : ℕ) : Prop := 1 ≤ n ∧ n ≤ maxKeysPerNode cfg

abbrev SizedCtx (cfg : Config) (C : IndexCtx h H) : Prop := C.Sized (NodeSize cfg) (RootSize cfg)

abbrev AllowedIn (cfg : Config) (C : IndexCtx h H) (n : ℕ) : Prop :=
  C.Allows (NodeSize cfg) (RootSize cfg) n

abbrev SizedAround (cfg : Config) (left right : IndexSiblings h)
    (up : IndexCtx (h + 1) H) : Prop :=
  Ctx.SizedAround (NodeSize cfg) (RootSize cfg) left right up

theorem AllowedIn.le (hn : AllowedIn cfg C n) : n ≤ maxKeysPerNode cfg := by
  unfold AllowedIn Ctx.Allows at hn
  split at hn
  · exact hn.2
  · exact hn.2

section FrameData

variable {left right : IndexSiblings h} {focus : ℕ} {k k' : Value}

def nodeData (t : IndexTree (h + 1)) : InternalNodeData := ⟨t.separators, t.children⟩

/-- The node with a marked child, as its page has it. -/
def frameData (left : IndexSiblings h) (focus : ℕ)
    (right : IndexSiblings h) : InternalNodeData :=
  ⟨(left.map Prod.fst).reverse ++ right.map Prod.fst,
    (left.map fun p => p.2.rootId).reverse ++ focus :: right.map fun p => p.2.rootId⟩

theorem nodeData_fill (id : ℕ) (left : IndexSiblings h) (t : IndexTree h)
    (right : IndexSiblings h) :
    nodeData (Tree.fill id left t right) = frameData left t.rootId right := by
  simp [nodeData, frameData]

section Cut

variable (i j : ℕ) (f c : IndexTree h) (k : Value) (l r : IndexSiblings h)

theorem nodeData_join : (nodeData (branch i f l)).join k (nodeData (branch j c r)) =
    nodeData (branch i f (l ++ (k, c) :: r)) := by
  simp [nodeData, InternalNodeData.join]

theorem nodeData_splitAt : (nodeData (branch i f (l ++ (k, c) :: r))).splitAt l.length =
    (nodeData (branch i f l), nodeData (branch j c r)) := by
  simp [nodeData, InternalNodeData.splitAt, List.drop_append]

theorem nodeData_separator (d : Value) :
    (nodeData (branch i f (l ++ (k, c) :: r))).separatorKeys.getD l.length d = k := by
  simp [nodeData]

end Cut

theorem cells_frame (id : ℕ) (left right : IndexSiblings h) (up : IndexCtx (h + 1) H)
    (focus : ℕ) :
    (frame id left right up).cells focus =
      {(id, .branch up.isTop (frameData left focus right).separatorKeys
        (frameData left focus right).childPageIds)} +
        (siblingCells left + siblingCells right + up.cells id) := rfl

theorem frameData_count :
    (frameData left focus right).separatorKeys.length = left.length + right.length := by
  simp [frameData]

theorem frameData_setSeparator_left (a : IndexTree h) :
    (frameData ((k, a) :: left) focus right).setSeparator left.length k' =
      frameData ((k', a) :: left) focus right := by
  simp [frameData, InternalNodeData.setSeparator]

theorem frameData_setSeparator_right {b b' : IndexTree h} (hid : b'.rootId = b.rootId) :
    (frameData left focus ((k, b) :: right)).setSeparator left.length k' =
      frameData left focus ((k', b') :: right) := by
  simp [frameData, InternalNodeData.setSeparator, hid]

theorem frameData_separator (b : IndexTree h) (d : Value) :
    (frameData left focus ((k, b) :: right)).separatorKeys.getD left.length d = k := by
  simp [frameData]

theorem frameData_sibling (b : IndexTree h) :
    (frameData left focus ((k, b) :: right)).childPageIds[left.length + 1]? = some b.rootId := by
  simp [frameData]

theorem insertIdx_append (a b : List α) (x : α) (hn : n = a.length) :
    (a ++ b).insertIdx n x = a ++ x :: b := by
  subst hn
  induction a with
  | nil => rfl
  | cons y a ih => simpa using ih

theorem frameData_insertChild (id : ℕ) (l r : IndexTree h) :
    (frameData left l.rootId right).insertChild left.length k r.rootId =
      nodeData (Tree.fill id left l ((k, r) :: right)) := by
  have hids : (left.map fun p => p.2.rootId).reverse ++ l.rootId :: right.map (fun p => p.2.rootId) =
      ((left.map fun p => p.2.rootId).reverse ++ [l.rootId]) ++ right.map fun p => p.2.rootId := by
    simp
  rw [nodeData_fill, frameData, InternalNodeData.insertChild, insertIdx_append _ _ _ (by simp), hids,
    insertIdx_append _ _ _ (by simp)]
  simp [frameData]

theorem frameData_no_sibling :
    (frameData left focus ([] : IndexSiblings h)).childPageIds[left.length + 1]? =
      none := by
  simp [frameData]

end FrameData

section Children

variable {X : IndexTree (h + 1)}

theorem Holds.children_lt (hs : Holds cfg s m M) (hsub : ∀ c ∈ X.below, c ∈ M) :
    ∀ id ∈ X.children, id < 2 ^ 64 := by
  intro id hid
  obtain ⟨v, -, hmem⟩ := X.exists_mem_below hid
  exact (hs.id_lt (hsub _ hmem)).trans (by decide)

/-- The children of a node are told their parent. -/
theorem Holds.adopt (hs : Holds cfg s m M) (parent : ℕ) (hsub : ∀ c ∈ X.below, c ∈ M) :
    ∃ s', BStarTree.rewriteChildrenParent parent (nodeData X).childPageIds s = (.ok (), s') ∧
      Holds cfg s' m M := by
  apply hs.rewriteChildrenParent parent
  intro child hchild
  obtain ⟨v, hfree, hmem⟩ := X.exists_mem_below hchild
  exact ⟨v, hfree, hsub _ hmem⟩

end Children

theorem BranchOk.setSeparator (hv : cfg.Valid) (hok : BranchOk cfg node)
    (hlen : node.separatorKeys.length ≤ maxKeysPerNode cfg) (hkey : KeyOk cfg key) (i : ℕ) :
    BranchOk cfg (node.setSeparator i key) := by
  apply BranchOk.of_keys hv
  · simpa [InternalNodeData.setSeparator] using hok.children
  · simpa [InternalNodeData.setSeparator] using hlen
  · intro k hk
    rcases List.mem_or_eq_of_mem_set hk with hk | rfl
    · exact hok.keys_ok k hk
    · exact hkey
  · exact hok.ids_lt

/-- The update reaches the nearest separator to the left of the child. -/
theorem Holds.updateParentSeparator (hv : cfg.Valid) {focus : ℕ}
    (hs : Holds cfg s m (C.cells focus + M)) (hkey : KeyOk cfg key) (hsized : SizedCtx cfg C) :
    ∃ s', updateParentSeparatorAfterChildChange key (searchPath C) s = (.ok (), s') ∧
      Holds cfg s' m ((C.setSeparator key).cells focus + M) := by
  induction C generalizing focus M with
  | top => exact ⟨s, rfl, hs⟩
  | frame id left right up ih =>
    cases left with
    | nil =>
      have hup : Holds cfg s m (up.cells id + ({(id, .branch up.isTop
          (frameData [] focus right).separatorKeys (frameData [] focus right).childPageIds)} +
          (siblingCells right + M))) := by
        rw [cells_frame, Tree.siblingCells_nil] at hs
        convert hs using 1
        abel
      obtain ⟨s', hrun, hs'⟩ := ih hup hsized.2.2
      refine ⟨s', hrun, ?_⟩
      rw [Ctx.setSeparator, cells_frame, Tree.siblingCells_nil, Ctx.isTop_setSeparator]
      convert hs' using 1
      abel
    | cons p left =>
      obtain ⟨k, a⟩ := p
      rw [cells_frame, add_assoc] at hs
      obtain ⟨header, hread, hok, hheader, hroot⟩ := hs.readInternal (self_mem _ _)
      have hcount : (frameData ((k, a) :: left) focus right).separatorKeys.length ≤
          maxKeysPerNode cfg := by
        rw [frameData_count]
        exact AllowedIn.le (C := up) hsized.1
      obtain ⟨s', hwrite, hs'⟩ :=
        hs.writeInternal hheader (BranchOk.setSeparator hv hok hcount hkey left.length)
      refine ⟨s', ?_, ?_⟩
      · rw [searchPath, updateParentSeparatorAfterChildChange, if_neg (by simp),
          bind_ok hread]
        exact hwrite
      · rw [Ctx.setSeparator, cells_frame, add_assoc, ← hroot,
          ← frameData_setSeparator_left (k := k)]
        exact hs'

section Choice

variable {fits : ℕ → Bool} {d : ℕ → ℕ} {candidates : List ℕ} {best : Option ℕ} {total : ℕ}
  {f : ℕ → ℕ → Bool}

theorem closer_cases (best : Option ℕ) (candidate : ℕ) :
    closer fits d best candidate = some candidate ∧ fits candidate = true ∨
      closer fits d best candidate = best ∧ (best = none → fits candidate = false) := by
  by_cases hfits : fits candidate = true
  · cases best with
    | none => exact .inl ⟨if_pos hfits, hfits⟩
    | some b =>
      by_cases hlt : d candidate < d b
      · exact .inl ⟨by simp [closer, hfits, hlt], hfits⟩
      · exact .inr ⟨by simp [closer, hfits, hlt], fun hnone => nomatch hnone⟩
  · exact .inr ⟨if_neg hfits, fun _ => by simpa using hfits⟩

theorem foldl_closer_some {c : ℕ} (hc : candidates.foldl (closer fits d) best = some c) :
    best = some c ∨ c ∈ candidates ∧ fits c = true := by
  induction candidates generalizing best with
  | nil => exact .inl hc
  | cons candidate candidates ih =>
    rcases ih hc with heq | ⟨hmem, hfits⟩
    · rcases closer_cases (d := d) best candidate with ⟨hnew, hfits⟩ | ⟨hold, -⟩
      · obtain rfl : candidate = c := Option.some.inj (hnew.symm.trans heq)
        exact .inr ⟨List.mem_cons_self, hfits⟩
      · exact .inl (hold.symm.trans heq)
    · exact .inr ⟨List.mem_cons_of_mem _ hmem, hfits⟩

theorem foldl_closer_none (hnone : candidates.foldl (closer fits d) best = none) :
    best = none ∧ ∀ c ∈ candidates, fits c = false := by
  induction candidates generalizing best with
  | nil => exact ⟨hnone, by simp⟩
  | cons candidate candidates ih =>
    obtain ⟨hstep, hrest⟩ := ih hnone
    rcases closer_cases (d := d) best candidate with ⟨hnew, -⟩ | ⟨hold, hfits⟩
    · rw [hnew] at hstep
      cases hstep
    · have hbest : best = none := hold.symm.trans hstep
      refine ⟨hbest, ?_⟩
      intro c hc
      rcases List.mem_cons.mp hc with rfl | hc
      · exact hfits hbest
      · exact hrest c hc

theorem nearest_some {c : ℕ} (h : nearest fits d candidates = some c) :
    c ∈ candidates ∧ fits c = true := by
  rcases foldl_closer_some h with hnone | hc
  · cases hnone
  · exact hc

theorem nearest_none (h : nearest fits d candidates = none) :
    ∀ c ∈ candidates, fits c = false :=
  (foldl_closer_none h).2

theorem chooseBalancedSplit_some {split : ℕ} (h : chooseBalancedSplit total f = some split) :
    split < total ∧ f split (total - split) = true := by
  obtain ⟨hmem, hfits⟩ := nearest_some h
  rw [List.mem_range'_1] at hmem
  exact ⟨by omega, hfits⟩

theorem chooseBalancedSplit_none {split : ℕ} (h : chooseBalancedSplit total f = none)
    (hpos : 1 ≤ split) (hlt : split < total) : f split (total - split) = false := by
  apply nearest_none h
  rw [List.mem_range'_1]
  omega

theorem balanced_iff {left right : ℕ} :
    balanced cfg left right = true ↔ NodeSize cfg left ∧ NodeSize cfg right := by
  simp [balanced, NodeSize, and_assoc]

theorem exists_balanced (hv : cfg.Valid) (hlow : 2 * minKeysPerNonRootNode cfg ≤ total)
    (hhigh : total ≤ 2 * maxKeysPerNode cfg) :
    ∃ split, split ≤ total ∧ NodeSize cfg split ∧ NodeSize cfg (total - split) := by
  have hdeg := hv.degree
  refine ⟨max (minKeysPerNonRootNode cfg) (total - maxKeysPerNode cfg), ?_, ?_, ?_⟩ <;>
  · simp only [NodeSize, minKeysPerNonRootNode, maxKeysPerNode] at *
    omega

end Choice

theorem redistribute_no_sibling {up : IndexCtx (h + 1) H} {left : IndexSiblings h} {pid aid : ℕ}
    (hs : Holds cfg s m ((frame pid left [] up).cells aid + M)) :
    (∀ es, redistributeLeafWithRightSibling aid (searchPath (frame pid left [] up)) es s =
        (.ok false, s)) ∧
      ∀ node, redistributeInternalWithRightSibling aid (searchPath (frame pid left [] up)) node s =
        (.ok false, s) := by
  rw [cells_frame, add_assoc] at hs
  obtain ⟨header, hread, -⟩ := hs.readInternal (self_mem _ _)
  constructor
  · intro es
    unfold redistributeLeafWithRightSibling
    simp only [searchPath]
    rw [bind_ok hread, frameData_no_sibling]
    rfl
  · intro node
    unfold redistributeInternalWithRightSibling
    simp only [searchPath]
    rw [bind_ok hread, frameData_no_sibling]
    rfl

section Leaves

variable {up : IndexCtx 1 H} {left right : IndexSiblings 0} {k : Value}
  {pid aid bid anext bnext : ℕ} {aes bes es : List LeafEntry}

/-- The surroundings of a leaf after it has shared its entries with its right sibling. -/
def sharedCtx (pid : ℕ) (left right : IndexSiblings 0) (up : IndexCtx 1 H)
    (bid bnext : ℕ) (front : Value) (newRight : List LeafEntry) : IndexCtx 0 H :=
  let C := frame pid left ((frontKey newRight, leaf bid bnext newRight) :: right) up
  if left = [] then C.setSeparator front else C

section SharedCtx

variable {front : Value} {y : List LeafEntry}

theorem isTop_sharedCtx : (sharedCtx pid left right up bid bnext front y).isTop = false := by
  unfold sharedCtx
  split_ifs
  · exact Ctx.isTop_setSeparator _ _
  · rfl

theorem rootId_sharedCtx :
    (sharedCtx pid left right up bid bnext front y).rootId aid = up.rootId pid := by
  unfold sharedCtx
  split_ifs <;> simp [Ctx.rootId]

theorem sized_sharedCtx (hy : NodeSize cfg y.length) (hsized : SizedAround cfg left right up) :
    SizedCtx cfg (sharedCtx pid left right up bid bnext front y) := by
  have hframe : SizedCtx cfg
      (frame pid left ((frontKey y, leaf bid bnext y) :: right) up) :=
    Ctx.sized_right_iff.mpr ⟨⟨hy, trivial⟩, hsized⟩
  unfold sharedCtx
  split_ifs with hleft
  · exact (Ctx.sized_setSeparator _ _).mpr hframe
  · exact hframe

end SharedCtx

theorem frontKey_ok {entries : List LeafEntry} (hok : EntriesOk cfg entries)
    (hne : entries ≠ []) : KeyOk cfg (frontKey entries) := by
  cases entries with
  | nil => exact absurd rfl hne
  | cons e entries => exact hok.keys_ok e List.mem_cons_self

/-- The three pages of a redistribution: the parent, the leaf and its sibling. -/
abbrev sharingCells (pid aid bid : ℕ) (isTop : Bool) (parent : InternalNodeData)
    (a b : View Value LeafEntry) (R : NodeCells) : NodeCells :=
  {(pid, .branch isTop parent.separatorKeys parent.childPageIds)} +
    ({(aid, a)} + ({(bid, b)} + R))

theorem writeSharedLeaves_spec (hv : cfg.Valid) {x y : List LeafEntry}
    {headerA headerB : NodeHeader} {a b : View Value LeafEntry}
    (hs : Holds cfg s m (sharingCells pid aid bid up.isTop
      (frameData left aid ((k, leaf bid bnext bes) :: right)) a b
      (siblingCells left + siblingCells right + up.cells pid)))
    (hparent : BranchOk cfg (frameData left aid ((k, leaf bid bnext bes) :: right)))
    (hparentHeader : HeaderOk parentHeader ∧ parentHeader.isRoot = up.isTop)
    (hheaderA : HeaderOk headerA ∧ headerA.isRoot = false)
    (hheaderB : HeaderOk headerB ∧ headerB.isRoot = false ∧ headerB.nextLeafPageId = bnext)
    (hx : EntriesOk cfg x) (hy : EntriesOk cfg y) (hxne : x ≠ []) (hyne : y ≠ [])
    (hsized : SizedAround cfg left right up) (hynode : NodeSize cfg y.length) :
    ∃ s', writeSharedLeaves (⟨pid, left.length⟩ :: searchPath up) ⟨pid, left.length⟩ parentHeader
        (frameData left aid ((k, leaf bid bnext bes) :: right)) aid bid headerA headerB x y s =
          (.ok (), s') ∧
      Holds cfg s' m ((sharedCtx pid left right up bid bnext (frontKey x) y).cells aid +
        {(aid, .leaf false bid x)}) := by
  have hbid : bid < 2 ^ 63 := hs.id_lt (mem_third (bid, b) _ _ _)
  have hheaderA' : HeaderOk { headerA with nextLeafPageId := bid } :=
    ⟨hheaderA.1.parent_lt, hbid.trans (by decide)⟩
  obtain ⟨s₁, hwrite₁, hs₁⟩ := (hs.cast (add_left_comm _ _ _)).writeLeaf hheaderA' hx
  obtain ⟨s₂, hwrite₂, hs₂⟩ := (hs₁.cast (rotate_cells _ _ _ _)).writeLeaf hheaderB.1 hy
  have hkey : KeyOk cfg (frontKey y) := frontKey_ok hy hyne
  have hcount : (frameData left aid ((k, leaf bid bnext bes) :: right)).separatorKeys.length ≤
      maxKeysPerNode cfg := by
    rw [frameData_count]
    exact AllowedIn.le (C := up) hsized.count
  obtain ⟨s₃, hwrite₃, hs₃⟩ := (hs₂.cast (rotate_cells _ _ _ _)).writeInternal
    hparentHeader.1 (BranchOk.setSeparator hv hparent hcount hkey left.length)
  have hs₃' : Holds cfg s₃ m
      ((frame pid left ((frontKey y, leaf bid bnext y) :: right) up).cells aid +
        {(aid, .leaf false bid x)}) := by
    apply hs₃.cast
    have hset : (frameData left aid ((k, leaf bid bnext bes) :: right)).setSeparator
        left.length (frontKey y) =
        frameData left aid ((frontKey y, leaf bid bnext y) :: right) :=
      frameData_setSeparator_right rfl
    rw [cells_frame, Tree.siblingCells_cons, Tree.cells_leaf, hparentHeader.2, hset]
    simp only [hheaderA.2, hheaderB.2.1, hheaderB.2.2]
    abel
  unfold writeSharedLeaves
  rw [bind_ok hwrite₁, bind_ok hwrite₂, bind_ok hwrite₃]
  by_cases hleft : left = []
  · subst hleft
    obtain ⟨s₄, hupdate, hs₄⟩ := hs₃'.updateParentSeparator hv (frontKey_ok hx hxne)
      (Ctx.sized_right_iff.mpr ⟨⟨hynode, trivial⟩, hsized⟩)
    refine ⟨s₄, ?_, ?_⟩
    · rw [if_pos (by simpa using hxne)]
      exact hupdate
    · exact hs₄
  · refine ⟨s₃, ?_, ?_⟩
    · rw [if_neg (by simp [hleft])]
      rfl
    · rw [sharedCtx, if_neg hleft]
      exact hs₃'

/-- The leaves are evened out and the separator between them moves, or their
entries are too few or too many for that. -/
theorem redistributeLeaf_spec (hv : cfg.Valid)
    (hs : Holds cfg s m
      ((frame pid left ((k, leaf bid bnext bes) :: right) up).cells aid +
        {(aid, .leaf false anext aes)}))
    (hes : ∀ e ∈ es, EntryOk cfg e) (hsized : SizedAround cfg left right up) :
    (∃ x y s', es ++ bes = x ++ y ∧ NodeSize cfg x.length ∧ NodeSize cfg y.length ∧
      redistributeLeafWithRightSibling aid
        (searchPath (frame pid left ((k, leaf bid bnext bes) :: right) up)) es s =
          (.ok true, s') ∧
      Holds cfg s' m ((sharedCtx pid left right up bid bnext (frontKey x) y).cells aid +
        {(aid, .leaf false bid x)})) ∨
    (redistributeLeafWithRightSibling aid
        (searchPath (frame pid left ((k, leaf bid bnext bes) :: right) up)) es s =
          (.ok false, s) ∧
      (es.length + bes.length < 2 * minKeysPerNonRootNode cfg ∨
        2 * maxKeysPerNode cfg < es.length + bes.length)) := by
  have hs₀ : Holds cfg s m (sharingCells pid aid bid up.isTop
      (frameData left aid ((k, leaf bid bnext bes) :: right)) (.leaf false anext aes)
      (.leaf false bnext bes) (siblingCells left + siblingCells right + up.cells pid)) := by
    apply hs.cast
    rw [cells_frame, Tree.siblingCells_cons, Tree.cells_leaf, sharingCells]
    abel
  obtain ⟨parentHeader, hparent, hparentOk, hparentHeader⟩ := hs₀.readInternal (self_mem _ _)
  obtain ⟨headerA, hleafA, -, hheaderA, hrootA, -⟩ := hs₀.readLeaf (mem_second _ _ _)
  obtain ⟨headerB, hleafB, hbes, hheaderB⟩ := hs₀.readLeaf (mem_third _ _ _ _)
  have hleaves : readLeaves aid bid s = _ := readBoth_ok hleafA hleafB
  have hok : ∀ e ∈ es ++ bes, EntryOk cfg e := by
    intro e he
    rcases List.mem_append.mp he with he | he
    · exact hes e he
    · exact hbes.entry_ok e he
  have hdeg := hv.degree
  have htake : ∀ {n : ℕ}, NodeSize cfg n → NodeSize cfg ((es ++ bes).length - n) →
      n ≤ (es ++ bes).length →
      EntriesOk cfg ((es ++ bes).take n) ∧ EntriesOk cfg ((es ++ bes).drop n) := by
    intro n hn hn' hle
    refine ⟨EntriesOk.of_entries hv ?_ fun e he => hok e (List.mem_of_mem_take he),
      EntriesOk.of_entries hv ?_ fun e he => hok e (List.mem_of_mem_drop he)⟩
    · rw [List.length_take, Nat.min_eq_left hle]
      exact hn.2
    · rw [List.length_drop]
      exact hn'.2
  unfold redistributeLeafWithRightSibling
  simp only [searchPath]
  rw [bind_ok hparent]
  simp only [frameData_sibling, Tree.rootId_leaf]
  rw [bind_ok hleaves]
  rw [read_bind, hs.cfg_eq]
  cases hchoice : chooseBalancedSplit (es ++ bes).length fun leftCount rightCount =>
      balanced cfg leftCount rightCount &&
        (buildLeafPage cfg headerA ((es ++ bes).take leftCount)).isOk &&
        (buildLeafPage cfg headerB ((es ++ bes).drop leftCount)).isOk with
  | none =>
    refine .inr ⟨rfl, ?_⟩
    by_contra hcount
    rw [not_or, not_lt, not_lt, ← List.length_append] at hcount
    obtain ⟨split, hle, hn, hn'⟩ := exists_balanced hv hcount.1 hcount.2
    obtain ⟨hx, hy⟩ := htake hn hn' hle
    have hpos : 1 ≤ split ∧ split < (es ++ bes).length := by
      simp only [NodeSize, minKeysPerNonRootNode] at hn hn'
      omega
    have hrefused := chooseBalancedSplit_none hchoice hpos.1 hpos.2
    rw [balanced_iff.mpr ⟨hn, hn'⟩, buildLeafPage_ok headerA hx, buildLeafPage_ok headerB hy]
      at hrefused
    cases hrefused
  | some split =>
    obtain ⟨hlt, hfits⟩ := chooseBalancedSplit_some hchoice
    simp only [Bool.and_eq_true, balanced_iff] at hfits
    obtain ⟨⟨⟨hn, hn'⟩, -⟩, -⟩ := hfits
    obtain ⟨hx, hy⟩ := htake hn hn' hlt.le
    have hxlen : ((es ++ bes).take split).length = split := by
      rw [List.length_take, Nat.min_eq_left hlt.le]
    have hylen : ((es ++ bes).drop split).length = (es ++ bes).length - split := List.length_drop
    have hpos : 1 ≤ split := by
      simp only [NodeSize, minKeysPerNonRootNode] at hn
      omega
    obtain ⟨s', hwrite, hs'⟩ := writeSharedLeaves_spec hv hs₀ hparentOk hparentHeader
      ⟨hheaderA, hrootA⟩ hheaderB hx hy (List.ne_nil_of_length_pos (by omega))
      (List.ne_nil_of_length_pos (by omega)) hsized (by rw [hylen]; exact hn')
    refine .inl ⟨_, _, s', (List.take_append_drop split _).symm, by rw [hxlen]; exact hn,
      by rw [hylen]; exact hn', ?_, hs'⟩
    exact bind_ok hwrite

end Leaves

section Internals

variable {up : IndexCtx (h + 2) H} {left right : IndexSiblings (h + 1)} {k k' : Value}
  {pid aid : ℕ} {X S X' S' : IndexTree (h + 1)}

theorem writeSharedInternals_spec (hv : cfg.Valid) {headerA headerB : NodeHeader}
    {a b : View Value LeafEntry}
    (hs : Holds cfg s m (sharingCells pid aid S.rootId up.isTop
      (frameData left aid ((k, S) :: right)) a b
      (X'.below + S'.below + (siblingCells left + siblingCells right + up.cells pid))))
    (hX' : X'.rootId = aid) (hS' : S'.rootId = S.rootId)
    (hparent : BranchOk cfg (frameData left aid ((k, S) :: right)))
    (hparentHeader : HeaderOk parentHeader ∧ parentHeader.isRoot = up.isTop)
    (hheaderA : HeaderOk headerA ∧ headerA.isRoot = false)
    (hheaderB : HeaderOk headerB ∧ headerB.isRoot = false) (hx : BranchOk cfg (nodeData X'))
    (hy : BranchOk cfg (nodeData S')) (hk' : KeyOk cfg k')
    (hsized : SizedAround cfg left right up) :
    ∃ s', writeSharedInternals ⟨pid, left.length⟩ parentHeader
        (frameData left aid ((k, S) :: right)) aid S.rootId headerA headerB (nodeData X')
        (nodeData S') k' s = (.ok (), s') ∧
      Holds cfg s' m
        ((frame pid left ((k', S') :: right) up).cells aid + X'.cells false) := by
  obtain ⟨s₁, hwrite₁, hs₁⟩ := (hs.cast (add_left_comm _ _ _)).writeInternal hheaderA.1 hx
  obtain ⟨s₂, hwrite₂, hs₂⟩ := (hs₁.cast (rotate_cells _ _ _ _)).writeInternal hheaderB.1 hy
  have hcount : (frameData left aid ((k, S) :: right)).separatorKeys.length ≤
      maxKeysPerNode cfg := by
    rw [frameData_count]
    exact AllowedIn.le (C := up) hsized.count
  obtain ⟨s₃, hwrite₃, hs₃⟩ := (hs₂.cast (rotate_cells _ _ _ _)).writeInternal
    hparentHeader.1 (BranchOk.setSeparator hv hparent hcount hk' left.length)
  obtain ⟨s₄, hrewrite₄, hs₄⟩ := hs₃.adopt (X := X') aid fun c hc => by simp [hc]
  obtain ⟨s₅, hrewrite₅, hs₅⟩ := hs₄.adopt (X := S') S.rootId fun c hc => by simp [hc]
  refine ⟨s₅, ?_, ?_⟩
  · unfold writeSharedInternals
    rw [bind_ok hwrite₁, bind_ok hwrite₂, bind_ok hwrite₃,
      bind_ok hrewrite₄]
    exact hrewrite₅
  · apply hs₅.cast
    have hset : (frameData left aid ((k, S) :: right)).setSeparator left.length k' =
        frameData left aid ((k', S') :: right) :=
      frameData_setSeparator_right hS'
    rw [cells_frame, Tree.siblingCells_cons, Tree.cells_eq, Tree.cells_eq, hparentHeader.2, hset,
      hX', hS', hheaderA.2, hheaderB.2]
    simp only [nodeData]
    abel

theorem branchOk_part (hv : cfg.Valid) {t : IndexTree (h + 1)}
    (hkeys : ∀ key ∈ node.separatorKeys, KeyOk cfg key)
    (hids : ∀ id ∈ node.childPageIds, id < 2 ^ 64) (hsub : t.separators ⊆ node.separatorKeys)
    (hsub' : t.children ⊆ node.childPageIds) (hcount : t.keyCount ≤ maxKeysPerNode cfg) :
    BranchOk cfg (nodeData t) := by
  apply BranchOk.of_keys hv
  · change t.children.length = t.separators.length + 1
    rw [Tree.children_length, Tree.separators_length]
  · change t.separators.length ≤ _
    rw [Tree.separators_length]
    exact hcount
  · exact fun key hkey => hkeys key (hsub hkey)
  · exact fun id hid => hids id (hsub' hid)

theorem branchOk_cut (hv : cfg.Valid) {i : ℕ} {f c : IndexTree h} {l r : IndexSiblings h}
    (hkeys : ∀ key ∈ (nodeData (branch i f (l ++ (k, c) :: r))).separatorKeys, KeyOk cfg key)
    (hids : ∀ id ∈ (nodeData (branch i f (l ++ (k, c) :: r))).childPageIds, id < 2 ^ 64)
    (hl : NodeSize cfg l.length) (hr : NodeSize cfg r.length) (j : ℕ) :
    KeyOk cfg k ∧ BranchOk cfg (nodeData (branch i f l)) ∧
      BranchOk cfg (nodeData (branch j c r)) := by
  refine ⟨hkeys k (by simp [nodeData]), branchOk_part hv hkeys hids ?_ ?_ hl.2,
    branchOk_part hv hkeys hids ?_ ?_ hr.2⟩
  all_goals
    intro x hx
    simp only [nodeData, Tree.separators_branch, Tree.children_branch, List.map_append,
      List.map_cons, List.mem_append, List.mem_cons] at hx ⊢
    tauto

theorem join_ok {x y : InternalNodeData} (hkeys : ∀ key ∈ x.separatorKeys, KeyOk cfg key)
    (hids : ∀ id ∈ x.childPageIds, id < 2 ^ 64) (hk : KeyOk cfg k) (hy : BranchOk cfg y) :
    (∀ key ∈ (x.join k y).separatorKeys, KeyOk cfg key) ∧
      ∀ id ∈ (x.join k y).childPageIds, id < 2 ^ 64 := by
  constructor
  · intro key hkey
    simp only [InternalNodeData.join, List.mem_append, List.mem_cons] at hkey
    rcases hkey with hkey | rfl | hkey
    exacts [hkeys key hkey, hk, hy.keys_ok key hkey]
  · intro id hid
    rcases List.mem_append.mp hid with hid | hid
    exacts [hids id hid, hy.ids_lt id hid]

/-- The children are evened out and the separator between the nodes moves, or
their separators are too few or too many for that. -/
theorem redistributeInternal_spec (hv : cfg.Valid)
    (hs : Holds cfg s m ((frame pid left ((k, S) :: right) up).cells aid +
      ({(aid, .branch false separators children)} + X.below)))
    (hX : X.rootId = aid) (hXkeys : ∀ key ∈ X.separators, KeyOk cfg key)
    (hXsized : X.SizedBelow (NodeSize cfg)) (hSsized : S.SizedBelow (NodeSize cfg))
    (hsized : SizedAround cfg left right up) :
    (∃ (k' : Value) (X' S' : IndexTree (h + 1)) (s' : BStarTree),
      X'.rootId = aid ∧ X'.Sized (NodeSize cfg) ∧ S'.Sized (NodeSize cfg) ∧
      X'.flat ++ .separator k' :: S'.flat = X.flat ++ .separator k :: S.flat ∧
      redistributeInternalWithRightSibling aid
        (searchPath (frame pid left ((k, S) :: right) up)) (nodeData X) s = (.ok true, s') ∧
      Holds cfg s' m
        ((frame pid left ((k', S') :: right) up).cells aid + X'.cells false)) ∨
    (redistributeInternalWithRightSibling aid
        (searchPath (frame pid left ((k, S) :: right) up)) (nodeData X) s = (.ok false, s) ∧
      (X.keyCount + S.keyCount < 2 * minKeysPerNonRootNode cfg ∨
        2 * maxKeysPerNode cfg < X.keyCount + S.keyCount)) := by
  have hs₀ : Holds cfg s m (sharingCells pid aid S.rootId up.isTop
      (frameData left aid ((k, S) :: right)) (.branch false separators children)
      (.branch false S.separators S.children) (X.below + S.below +
        (siblingCells left + siblingCells right + up.cells pid))) := by
    apply hs.cast
    rw [cells_frame, Tree.siblingCells_cons, Tree.cells_eq, sharingCells]
    abel
  obtain ⟨parentHeader, hparent, hparentOk, hparentHeader⟩ := hs₀.readInternal (self_mem _ _)
  obtain ⟨headerA, hnodeA, -, hheaderA⟩ := hs₀.readInternal (mem_second _ _ _)
  obtain ⟨headerB, hnodeB, hSok, hheaderB⟩ := hs₀.readInternal (mem_third _ _ _ _)
  have hnodes : readInternals aid S.rootId s = _ := readBoth_ok hnodeA hnodeB
  have hXids := hs.children_lt (X := X) fun c hc => by simp [hc]
  have hk : KeyOk cfg k := hparentOk.keys_ok k (by simp [frameData])
  obtain ⟨i, f, rx, rfl⟩ := X.exists_branch
  obtain ⟨j, g, rs, rfl⟩ := S.exists_branch
  obtain rfl : i = aid := hX
  have hjoin : (nodeData (branch i f rx)).join k
      ⟨(branch j g rs).separators, (branch j g rs).children⟩ =
      nodeData (branch i f (rx ++ (k, g) :: rs)) := nodeData_join i j f g k rx rs
  obtain ⟨hkeys, hids⟩ := join_ok (x := nodeData (branch i f rx)) hXkeys hXids hk hSok
  rw [hjoin] at hkeys hids
  have hdeg := hv.degree
  have htotal : (nodeData (branch i f (rx ++ (k, g) :: rs))).separatorKeys.length =
      rx.length + rs.length + 1 := by
    simp [nodeData]
    omega
  unfold redistributeInternalWithRightSibling
  simp only [searchPath]
  rw [bind_ok hparent]
  simp only [frameData_sibling]
  rw [bind_ok hnodes]
  rw [read_bind, hs.cfg_eq, frameData_separator, hjoin, htotal]
  cases hchoice : nearest
      (fun middle => balanced cfg middle (rx.length + rs.length + 1 - middle - 1) &&
        (buildInternalPage cfg headerA
          ((nodeData (branch i f (rx ++ (k, g) :: rs))).splitAt middle).1).isOk &&
        (buildInternalPage cfg headerB
          ((nodeData (branch i f (rx ++ (k, g) :: rs))).splitAt middle).2).isOk)
      (fun middle => distance middle (rx.length + rs.length + 1 - middle - 1))
      (List.range' (minKeysPerNonRootNode cfg)
        (rx.length + rs.length + 1 - minKeysPerNonRootNode cfg)) with
  | none =>
    refine .inr ⟨rfl, ?_⟩
    by_contra hcount
    rw [not_or, not_lt, not_lt, Tree.keyCount_branch, Tree.keyCount_branch] at hcount
    obtain ⟨middle, hle, hn, hn'⟩ := exists_balanced hv hcount.1 hcount.2
    obtain ⟨l, p, r, hrest, hlen⟩ := Tree.exists_cut (l := rx ++ (k, g) :: rs) (m := middle)
      (by simp; omega)
    obtain ⟨k', c⟩ := p
    have hr : r.length = rx.length + rs.length - middle := by
      have := congrArg List.length hrest
      simp at this
      omega
    rw [hrest] at hkeys hids
    obtain ⟨-, hx, hy⟩ := branchOk_cut hv hkeys hids (hlen ▸ hn) (hr ▸ hn') j
    have hrefused := nearest_none hchoice middle (by
      rw [List.mem_range'_1]
      simp only [NodeSize] at hn
      omega)
    have hsub : rx.length + rs.length + 1 - middle - 1 = rx.length + rs.length - middle := by omega
    rw [hrest, ← hlen, nodeData_splitAt i j f c k' l r, hlen, hsub,
      balanced_iff.mpr ⟨hn, hn'⟩, buildInternalPage_ok headerA hx, buildInternalPage_ok headerB hy]
      at hrefused
    cases hrefused
  | some middle =>
    obtain ⟨hmem, hfits⟩ := nearest_some hchoice
    simp only [Bool.and_eq_true, balanced_iff] at hfits
    obtain ⟨⟨⟨hn, hn'⟩, -⟩, -⟩ := hfits
    rw [List.mem_range'_1] at hmem
    obtain ⟨l, p, r, hrest, hlen⟩ := Tree.exists_cut (l := rx ++ (k, g) :: rs) (m := middle)
      (by simp; omega)
    obtain ⟨k', c⟩ := p
    have hr : r.length = rx.length + rs.length + 1 - middle - 1 := by
      have := congrArg List.length hrest
      simp at this
      omega
    rw [← hlen] at hn
    rw [← hr] at hn'
    rw [hrest] at hkeys hids
    obtain ⟨hk', hx, hy⟩ := branchOk_cut hv hkeys hids hn hn' j
    have hbelow : (branch i f rx).below + (branch j g rs).below =
        (branch i f l).below + (branch j c r).below := by
      rw [← Tree.below_cut, hrest, Tree.below_cut]
    have hflat : (branch i f rx).flat ++ .separator k :: (branch j g rs).flat =
        (branch i f l).flat ++ .separator k' :: (branch j c r).flat := by
      rw [← Tree.flat_cut, hrest, Tree.flat_cut]
    have hparts : (branch i f l).SizedBelow (NodeSize cfg) ∧
        (branch j c r).SizedBelow (NodeSize cfg) := by
      rw [← Tree.sizedBelow_cut i j f c k', ← hrest, Tree.sizedBelow_cut i j f g k]
      exact ⟨hXsized, hSsized⟩
    rw [hbelow] at hs₀
    obtain ⟨s', hwrite, hs'⟩ := writeSharedInternals_spec hv hs₀ rfl rfl hparentOk hparentHeader
      hheaderA hheaderB hx hy hk' hsized
    refine .inl ⟨k', branch i f l, branch j c r, s', rfl, ⟨hn, hparts.1⟩,
      ⟨hn', hparts.2⟩, hflat.symm, ?_, hs'⟩
    apply bind_ok
    rw [hrest, ← hlen, nodeData_splitAt i j f c k' l r, nodeData_separator]
    exact hwrite

end Internals

/-- The tree lies in the pages, its metadata describe it, and it shows the
entries `E`. -/
structure Stored (cfg : Config) (s : BStarTree) (m : TreeMetadata) (E : List LeafEntry) {H : ℕ}
    (T : IndexTree H) : Prop where
  holds : Holds cfg s m (T.cells true)
  root_eq : m.rootPageId = T.rootId
  height_eq : m.treeHeight = H + 1
  sized : T.RootSized (NodeSize cfg) (RootSize cfg)
  shows : Shows LeafEntry.key m.firstLeafPageId invalidPageId E T.flat

/-- Some tree with the entries `E` is stored. -/
def Stores (cfg : Config) (s : BStarTree) (E : List LeafEntry) : Prop :=
  ∃ (m : TreeMetadata) (H : ℕ) (T : IndexTree H), Stored cfg s m E T

theorem AllowedIn.succ (hn : AllowedIn cfg C n) (hle : n + 1 ≤ maxKeysPerNode cfg) :
    AllowedIn cfg C (n + 1) := by
  unfold AllowedIn Ctx.Allows at *
  split_ifs at * with htop
  · exact ⟨Nat.le_add_left 1 n, hle⟩
  · exact ⟨Nat.le_succ_of_le hn.1, hle⟩

/-- The tree lies in the pages and shows `E`; its nodes may have too few keys. -/
structure Laid (cfg : Config) (s : BStarTree) (m : TreeMetadata) (E : List LeafEntry) {H : ℕ}
    (T : IndexTree H) : Prop where
  holds : Holds cfg s m (T.cells true)
  root_eq : m.rootPageId = T.rootId
  height_eq : m.treeHeight = H + 1
  shows : Shows LeafEntry.key m.firstLeafPageId invalidPageId E T.flat

/-- What the pages `M` have at the hole of `C`, under page `id`, lets the tree show `E` once the
hole shows `items`. -/
structure Pending (cfg : Config) (s : BStarTree) (m : TreeMetadata) (E : List LeafEntry) {h H : ℕ}
    (C : IndexCtx h H) (id : ℕ) (M : NodeCells) (items : List (Item Value LeafEntry)) : Prop where
  holds : Holds cfg s m (C.cells id + M)
  root_eq : m.rootPageId = C.rootId id
  height_eq : m.treeHeight = H + 1
  shows : Shows LeafEntry.key m.firstLeafPageId invalidPageId E (C.before ++ (items ++ C.after))

theorem laid_plug_iff :
    Laid cfg s m E (C.plug t) ↔ Pending cfg s m E C t.rootId (t.cells C.isTop) t.flat := by
  constructor
  · rintro ⟨hs, hroot, hheight, hshows⟩
    rw [Ctx.cells_plug] at hs
    rw [Ctx.rootId_plug] at hroot
    rw [Ctx.flat_plug] at hshows
    exact ⟨hs, hroot, hheight, hshows⟩
  · rintro ⟨hs, hroot, hheight, hshows⟩
    rw [← Ctx.cells_plug] at hs
    rw [← Ctx.rootId_plug] at hroot
    rw [← Ctx.flat_plug] at hshows
    exact ⟨hs, hroot, hheight, hshows⟩

theorem Laid.stores (hlaid : Laid cfg s m E (C.plug t)) (hC : SizedCtx cfg C)
    (hcount : AllowedIn cfg C t.keyCount) (hbelow : t.SizedBelow (NodeSize cfg)) :
    Stores cfg s E :=
  ⟨m, H, C.plug t, hlaid.holds, hlaid.root_eq, hlaid.height_eq,
    (Ctx.rootSized_plug C t).mpr ⟨hC, hcount, hbelow⟩, hlaid.shows⟩

theorem Stored.unplug (hst : Stored cfg s m E (C.plug t)) :
    Pending cfg s m E C t.rootId (t.cells C.isTop) t.flat ∧ SizedCtx cfg C ∧
      AllowedIn cfg C t.keyCount ∧ t.SizedBelow (NodeSize cfg) := by
  obtain ⟨hs, hroot, hheight, hsized, hshows⟩ := hst
  exact ⟨laid_plug_iff.mp ⟨hs, hroot, hheight, hshows⟩, (Ctx.rootSized_plug C t).mp hsized⟩

/-- A search ends at a leaf of the tree, with the answer that the entries give. -/
theorem Stored.findPathToLeaf {T : IndexTree H} (hst : Stored cfg s m E T) (key : Value) :
    ∃ (C : IndexCtx 0 H) (id next : ℕ) (entries : List LeafEntry),
      C.plug (leaf id next entries) = T ∧ C.Routed key ∧
      BStarTree.findPathToLeaf key s =
        (.ok (searchPath C, id, (lookup LeafEntry.key E key).map LeafEntry.rid), s) := by
  obtain ⟨C, id, next, entries, hT, hC, hrun⟩ := findPathToLeaf_eq key hst.holds hst.root_eq
  refine ⟨C, id, next, entries, hT, hC, ?_⟩
  rw [← hT] at hst
  have hshows := hst.unplug.1.shows
  rw [flat_leaf] at hshows
  rw [hrun, lookup_of_routed hC hshows, entryAt_eq_lookup hshows.leaf_sorted]

theorem NodeSize.ne_nil (hv : cfg.Valid) {l : List α} (hl : NodeSize cfg l.length) : l ≠ [] := by
  have hdeg := hv.degree
  have hmin := hl.1
  rw [minKeysPerNonRootNode] at hmin
  exact List.ne_nil_of_length_pos (by omega)

/-- Sharing moves the entries of two leaves within the list that the tree shows. -/
theorem shows_shared (hv : cfg.Valid) {C : IndexCtx 0 H} {left right : IndexSiblings 0}
    {pid aid bid anext bnext first : ℕ} {bes x y : List LeafEntry}
    (hshows : Shows LeafEntry.key first invalidPageId E
      ((frame pid left ((k, leaf bid bnext bes) :: right) up).before ++
        ((.start aid anext :: es.map .entry) ++
          (frame pid left ((k, leaf bid bnext bes) :: right) up).after)))
    (hxy : es ++ bes = x ++ y) (hx : NodeSize cfg x.length) (hy : NodeSize cfg y.length)
    (hC : C = sharedCtx pid left right up bid bnext (frontKey x) y) :
    Shows LeafEntry.key first invalidPageId E
      (C.before ++ ((leaf aid bid x : IndexTree 0).flat ++ C.after)) := by
  obtain ⟨e, x, rfl⟩ := List.exists_cons_of_ne_nil (hx.ne_nil hv)
  obtain ⟨e', y, rfl⟩ := List.exists_cons_of_ne_nil (hy.ne_nil hv)
  simp only [before, after, Tree.flatRight_cons, flat_leaf, List.cons_append,
    List.append_assoc] at hshows
  rw [← List.append_assoc up.before] at hshows
  have hmerged := hshows.merge
  have hmap : es.map Item.entry ++ (bes.map .entry ++ (Tree.flatRight right ++ up.after)) =
      (e :: x).map Item.entry ++ .entry e' :: (y.map .entry ++ (Tree.flatRight right ++ up.after)) := by
    rw [← List.append_assoc, ← List.map_append, hxy]
    simp
  rw [hmap] at hmerged
  have hsplit := hmerged.split (j := bid)
  rw [hC, sharedCtx]
  split_ifs with hleft
  · rw [Ctx.after_setSeparator]
    have hset := Shows.setSeparator
      (frame pid left ((e'.key, leaf bid bnext (e' :: y)) :: right) up)
      (by simpa [before] using hsplit)
    simpa [after, frontKey, flat_leaf, Tree.flatRight_cons] using hset
  · simpa [before, after, frontKey, flat_leaf, Tree.flatRight_cons] using hsplit

theorem redistributeLeaf_stores (hv : cfg.Valid) {left right : IndexSiblings 0}
    {pid aid bid anext bnext : ℕ} {aes bes : List LeafEntry} {C : IndexCtx 0 H}
    (hC : C = frame pid left ((k, leaf bid bnext bes) :: right) up)
    (hp : Pending cfg s m E C aid {(aid, .leaf false anext aes)} (.start aid anext :: es.map .entry))
    (hes : ∀ e ∈ es, EntryOk cfg e) (hsized : SizedAround cfg left right up) :
    (∃ s', redistributeLeafWithRightSibling aid (searchPath C) es s = (.ok true, s') ∧
      Stores cfg s' E) ∨
    (redistributeLeafWithRightSibling aid (searchPath C) es s = (.ok false, s) ∧
      (es.length + bes.length < 2 * minKeysPerNonRootNode cfg ∨
        2 * maxKeysPerNode cfg < es.length + bes.length)) := by
  subst hC
  rcases redistributeLeaf_spec hv hp.holds hes hsized with
    ⟨x, y, s', hxy, hx, hy, hrun, hs'⟩ | hfalse
  · refine .inl ⟨s', hrun, ?_⟩
    have hlaid : Laid cfg s' m E ((sharedCtx pid left right up bid bnext (frontKey x) y).plug
        (leaf aid bid x)) := by
      refine laid_plug_iff.mpr ⟨?_, ?_, hp.height_eq, shows_shared hv hp.shows hxy hx hy rfl⟩
      · rw [isTop_sharedCtx]
        exact hs'
      · rw [rootId_sharedCtx]
        exact hp.root_eq
    apply hlaid.stores (sized_sharedCtx hy hsized) _ trivial
    rw [AllowedIn, Ctx.Allows, isTop_sharedCtx]
    exact hx
  · exact .inr hfalse

theorem redistributeInternal_stores (hv : cfg.Valid) {up : IndexCtx (h + 2) H}
    {left right : IndexSiblings (h + 1)} {pid : ℕ} {X S : IndexTree (h + 1)}
    {C : IndexCtx (h + 1) H} (hC : C = frame pid left ((k, S) :: right) up)
    (hp : Pending cfg s m E C X.rootId ({(X.rootId, .branch false separators children)} + X.below) X.flat)
    (hkeys : ∀ key ∈ X.separators, KeyOk cfg key) (hX : X.SizedBelow (NodeSize cfg))
    (hS : S.SizedBelow (NodeSize cfg)) (hsized : SizedAround cfg left right up) :
    (∃ s', redistributeInternalWithRightSibling X.rootId (searchPath C) (nodeData X) s =
      (.ok true, s') ∧ Stores cfg s' E) ∨
    (redistributeInternalWithRightSibling X.rootId (searchPath C) (nodeData X) s = (.ok false, s) ∧
      (X.keyCount + S.keyCount < 2 * minKeysPerNonRootNode cfg ∨
        2 * maxKeysPerNode cfg < X.keyCount + S.keyCount)) := by
  subst hC
  rcases redistributeInternal_spec hv hp.holds rfl hkeys hX hS hsized with
    ⟨k', X', S', s', hX', hXsized, hSsized, hflat, hrun, hs'⟩ | hfalse
  · refine .inl ⟨s', hrun, ?_⟩
    have hlaid : Laid cfg s' m E ((frame pid left ((k', S') :: right) up).plug X') := by
      have hshows := hp.shows
      rw [laid_plug_iff, hX']
      refine ⟨hs', hp.root_eq, hp.height_eq, ?_⟩
      simp only [before, after, Tree.flatRight_cons, List.append_assoc,
        List.cons_append] at hshows ⊢
      rw [← List.cons_append, ← List.append_assoc X'.flat, hflat]
      simpa using hshows
    exact hlaid.stores (Ctx.sized_right_iff.mpr ⟨hSsized, hsized⟩) hXsized.1 hXsized.2
  · exact .inr hfalse

/-- Two contexts that differ in their separators only. -/
structure SameShape (cfg : Config) (C C' : IndexCtx h H) : Prop where
  path_eq : searchPath C' = searchPath C
  isTop_eq : C'.isTop = C.isTop
  rootId_eq : ∀ id, C'.rootId id = C.rootId id
  sized : SizedCtx cfg C → SizedCtx cfg C'

theorem searchPath_setSeparator (C : IndexCtx h H) (k : Value) :
    searchPath (C.setSeparator k) = searchPath C := by
  induction C with
  | top => rfl
  | frame id left right up ih =>
    cases left with
    | nil => simp [Ctx.setSeparator, searchPath, ih]
    | cons p left => simp [Ctx.setSeparator, searchPath]

/-- The separator to the left of a leaf follows the first key of the leaf. -/
theorem refreshSeparator_spec (hv : cfg.Valid) {C : IndexCtx 0 H} {id next : ℕ}
    (hp : Pending cfg s m E C id M (.start id next :: es.map .entry)) (hC : SizedCtx cfg C)
    (c : Prop) [Decidable c] (hc : c → es ≠ []) (hes : ∀ e ∈ es, EntryOk cfg e) :
    ∃ (C' : IndexCtx 0 H) (s' : BStarTree),
      (if c then updateParentSeparatorAfterChildChange (frontKey es) (searchPath C) else
        (pure () : Action Unit)) s = (.ok (), s') ∧
      SameShape cfg C C' ∧ Pending cfg s' m E C' id M (.start id next :: es.map .entry) := by
  by_cases hcond : c
  · obtain ⟨e, es, rfl⟩ := List.exists_cons_of_ne_nil (hc hcond)
    obtain ⟨s', hrun, hs'⟩ := hp.holds.updateParentSeparator hv (hes e List.mem_cons_self).1 hC
    refine ⟨C.setSeparator e.key, s', ?_, ?_, hs', ?_, hp.height_eq, ?_⟩
    · rw [if_pos hcond]
      exact hrun
    · constructor
      · exact searchPath_setSeparator C e.key
      · exact Ctx.isTop_setSeparator e.key C
      · exact Ctx.rootId_setSeparator e.key C
      · exact (Ctx.sized_setSeparator e.key C).mpr
    · rw [Ctx.rootId_setSeparator]
      exact hp.root_eq
    · rw [Ctx.after_setSeparator]
      exact hp.shows.setSeparator C
  · refine ⟨C, s, ?_, ⟨rfl, rfl, fun _ => rfl, fun h => h⟩, hp⟩
    rw [if_neg hcond]
    rfl

/-- A leaf is written back with other entries, and its separator follows it. -/
theorem rewriteLeaf_spec (hv : cfg.Valid) {C : IndexCtx 0 H} {id next : ℕ} {header : NodeHeader}
    {aes : List LeafEntry}
    (hp : Pending cfg s m E C id {(id, .leaf C.isTop next aes)} (.start id next :: es.map .entry))
    (hC : SizedCtx cfg C)
    (hheader : HeaderOk header ∧ header.isRoot = C.isTop ∧ header.nextLeafPageId = next)
    (hes : ∀ e ∈ es, EntryOk cfg e) (hlength : es.length ≤ maxKeysPerNode cfg) (c : Prop)
    [Decidable c] (hc : c → es ≠ []) :
    ∃ (C' : IndexCtx 0 H) (s₁ s₂ : BStarTree), writeLeaf id header es s = (.ok (), s₁) ∧
      (if c then updateParentSeparatorAfterChildChange (frontKey es) (searchPath C) else
        (pure () : Action Unit)) s₁ = (.ok (), s₂) ∧
      SameShape cfg C C' ∧ Laid cfg s₂ m E (C'.plug (leaf id next es)) := by
  obtain ⟨hs, hroot, hheight, hshows⟩ := hp
  rw [add_comm] at hs
  obtain ⟨s₁, hwrite, hs₁⟩ := hs.writeLeaf hheader.1 (EntriesOk.of_entries hv hlength hes)
  rw [add_comm, hheader.2.1, hheader.2.2] at hs₁
  obtain ⟨C', s₂, hrefresh, hshape, hp₂⟩ :=
    refreshSeparator_spec hv ⟨hs₁, hroot, hheight, hshows⟩ hC c hc hes
  refine ⟨C', s₁, s₂, hwrite, hrefresh, hshape, ?_⟩
  rw [laid_plug_iff, Tree.cells_leaf, hshape.isTop_eq]
  exact hp₂

end CourseDb.BStarTree

import CourseDb.Index.TreeInsert

/-! # Deletion from the stored tree

A node that has lost a key shares with a sibling or takes it in, which costs
the parent a key in turn. A root without separators gives way to its only child.
-/

namespace CourseDb.BStarTree

open Fallible (read_bind bind_ok pure_apply ite_bind_ok)
open BTree
open BTree.Tree (cells_eq siblingCells flatLeft flatRight cells_leaf flat_leaf keyCount_leaf branch
  leaf)

variable {cfg : Config} {s : BStarTree} {m : TreeMetadata} {M : NodeCells} {h H : ℕ}
  {E : List LeafEntry} {v : View Value LeafEntry} {header : NodeHeader} {X S : IndexTree h}

/-- The node at the hole lacks one key, all others have theirs. -/
structure Deficient (cfg : Config) (s : BStarTree) (E : List LeafEntry) {h H : ℕ}
    (C : IndexCtx h H) (X : IndexTree h) : Prop where
  laid : ∃ m, Laid cfg s m E (C.plug X)
  isTop_eq : C.isTop = false
  sized : SizedCtx cfg C
  below : X.SizedBelow (NodeSize cfg)
  count : X.keyCount + 1 = minKeysPerNonRootNode cfg

/-- What holds once a node with too few keys is dealt with. -/
def Settled (cfg : Config) (E : List LeafEntry) {h H : ℕ} (up : IndexCtx (h + 1) H) (pid : ℕ)
    (outcome : MergeOutcome) (s : BStarTree) : Prop :=
  match outcome with
  | .notMerged => False
  | .merged => Stores cfg s E
  | .parentUnderfull => ∃ P : IndexTree (h + 1), P.rootId = pid ∧ Deficient cfg s E up P

def Settles (cfg : Config) (E : List LeafEntry) {h H : ℕ} (up : IndexCtx (h + 1) H) (pid : ℕ)
    (x : Action MergeOutcome) (s : BStarTree) : Prop :=
  ∃ outcome s', x s = (.ok outcome, s') ∧ Settled cfg E up pid outcome s'

section Parent

variable {up : IndexCtx (h + 1) H} {left right : IndexSiblings h} {pid focus : ℕ}
  {k : Value} {S : IndexTree h}

theorem eraseIdx_append {α : Type} (a b : List α) (x : α) {n : ℕ} (hn : n = a.length) :
    (a ++ x :: b).eraseIdx n = a ++ b := by
  subst hn
  induction a with
  | nil => rfl
  | cons y a ih => simpa using ih

theorem frameData_eraseChild :
    (frameData left focus ((k, S) :: right)).eraseChild left.length =
      frameData left focus right := by
  have hids : (left.map fun p => p.2.rootId).reverse ++
      focus :: ((k, S) :: right).map (fun p => p.2.rootId) =
      ((left.map fun p => p.2.rootId).reverse ++ [focus]) ++
        S.rootId :: right.map fun p => p.2.rootId := by
    simp
  rw [frameData, InternalNodeData.eraseChild, List.map_cons, eraseIdx_append _ _ _ (by simp), hids,
    eraseIdx_append _ _ _ (by simp)]
  simp [frameData]

theorem BranchOk.eraseChild (hv : cfg.Valid)
    (hok : BranchOk cfg (frameData left focus ((k, S) :: right)))
    (hcount : AllowedIn cfg up (left.length + (right.length + 1))) :
    BranchOk cfg (frameData left focus right) := by
  apply BranchOk.of_keys hv
  · simp [frameData]
    omega
  · rw [frameData_count]
    have hle := hcount.le
    omega
  · intro key hkey
    apply hok.keys_ok
    simp only [frameData, List.map_cons, List.mem_append, List.mem_cons] at hkey ⊢
    tauto
  · intro id hid
    apply hok.ids_lt
    simp only [frameData, List.map_cons, List.mem_append, List.mem_cons] at hid ⊢
    tauto

theorem shrinkParent_spec {P : IndexTree (h + 1)}
    (hp : Pending cfg s m E up P.rootId ({(P.rootId, v)} + P.below) P.flat)
    (hheader : HeaderOk header ∧ header.isRoot = up.isTop) (hok : BranchOk cfg (nodeData P))
    (hcount : AllowedIn cfg up (P.keyCount + 1)) (hroot : up.isTop = true → 1 ≤ P.keyCount)
    (hbelow : P.SizedBelow (NodeSize cfg)) (hup : SizedCtx cfg up) :
    Settles cfg E up P.rootId (shrinkParent P.rootId header (nodeData P)) s := by
  obtain ⟨hs, hrootId, hheight, hshows⟩ := hp
  rw [add_comm, add_assoc] at hs
  obtain ⟨s', hwrite, hs'⟩ := hs.writeInternal hheader.1 hok
  have hlaid : Laid cfg s' m E (up.plug P) := by
    refine laid_plug_iff.mpr ⟨?_, hrootId, hheight, hshows⟩
    rw [cells_eq, add_comm, add_assoc, ← hheader.2]
    exact hs'
  have hlength : (nodeData P).separatorKeys.length = P.keyCount := P.separators_length
  unfold Settles shrinkParent
  rw [bind_ok hwrite, read_bind, hs'.cfg_eq, hlength,
    hheader.2]
  by_cases hunder : up.isTop = false ∧ P.keyCount < minKeysPerNonRootNode cfg
  · refine ⟨.parentUnderfull, s', ?_, P, rfl, ⟨m, hlaid⟩, hunder.1, hup, hbelow, ?_⟩
    · rw [if_pos (by simpa using hunder)]
      rfl
    · rw [AllowedIn, Ctx.Allows, hunder.1] at hcount
      exact le_antisymm hunder.2 hcount.1
  · refine ⟨.merged, s', ?_, hlaid.stores hup ?_ hbelow⟩
    · rw [if_neg (by simpa using hunder)]
      rfl
    · have hle := hcount.le
      unfold AllowedIn Ctx.Allows at *
      split_ifs with htop
      · exact ⟨hroot htop, by omega⟩
      · rw [not_and, not_lt] at hunder
        exact ⟨hunder (by simpa using htop), by omega⟩

end Parent

/-- Two neighbours under one parent that are to share their keys or to become one. -/
structure Neighbours (cfg : Config) (s : BStarTree) (m : TreeMetadata) (E : List LeafEntry)
    {h H : ℕ} (pid : ℕ) (left : IndexSiblings h) (X : IndexTree h) (k : Value)
    (S : IndexTree h) (right : IndexSiblings h) (up : IndexCtx (h + 1) H) : Prop where
  laid : Laid cfg s m E ((Ctx.frame pid left ((k, S) :: right) up).plug X)
  around : SizedAround cfg left right up
  below_left : X.SizedBelow (NodeSize cfg)
  below_right : S.SizedBelow (NodeSize cfg)
  lower : 2 * minKeysPerNonRootNode cfg ≤ X.keyCount + S.keyCount + 1
  upper : X.keyCount + S.keyCount ≤ 2 * maxKeysPerNode cfg

section Merge

variable {pid : ℕ} {k : Value} {up : IndexCtx (h + 2) H}

section Above

variable {left right : IndexSiblings h} {X S Y : IndexTree h} {up : IndexCtx (h + 1) H}

theorem Neighbours.cells (hn : Neighbours cfg s m E pid left X k S right up) :
    Holds cfg s m ({(pid, .branch up.isTop (frameData left X.rootId ((k, S) :: right)).separatorKeys
      (frameData left X.rootId ((k, S) :: right)).childPageIds)} + (X.cells false + (S.cells false +
        (siblingCells left + siblingCells right + up.cells pid)))) := by
  apply hn.laid.holds.cast
  rw [Ctx.cells_plug, cells_frame, Tree.siblingCells_cons, Ctx.isTop]
  abel

/-- The rest of the tree after two neighbours have become `Y`. -/
theorem Neighbours.shrinkParent (hn : Neighbours cfg s m E pid left X k S right up) (hv : cfg.Valid)
    {s₁ : BStarTree} (hY : Y.rootId = X.rootId) (hYsized : Y.Sized (NodeSize cfg))
    (hs : Holds cfg s₁ m ({(pid, v)} + (Y.cells false +
      (siblingCells left + siblingCells right + up.cells pid))))
    (hheader : HeaderOk header ∧ header.isRoot = up.isTop)
    (hok : BranchOk cfg (frameData left X.rootId ((k, S) :: right)))
    (hroot : ¬ (up.isTop = true ∧ left = [] ∧ right = []))
    (hshows : Shows LeafEntry.key m.firstLeafPageId invalidPageId E
      (up.before ++ (flatLeft left ++ (Y.flat ++ (flatRight right ++ up.after))))) :
    Settles cfg E up pid (BStarTree.shrinkParent pid header
      ((frameData left X.rootId ((k, S) :: right)).eraseChild left.length)) s₁ := by
  obtain ⟨P, hP⟩ : ∃ P, P = Tree.fill pid left Y right := ⟨_, rfl⟩
  have hPid : P.rootId = pid := by rw [hP, Tree.rootId_fill]
  have hPcount : P.keyCount = left.length + right.length := by rw [hP, Tree.keyCount_fill]
  have hnode : frameData left X.rootId right = nodeData P := by
    rw [hP, nodeData_fill, hY]
  have hok' := BranchOk.eraseChild hv hok hn.around.count
  rw [frameData_eraseChild, hnode]
  rw [hnode] at hok'
  have hp : Pending cfg s₁ m E up P.rootId ({(P.rootId, v)} + P.below) P.flat := by
    refine ⟨?_, ?_, hn.laid.height_eq, ?_⟩
    · apply hs.cast
      rw [hPid, hP, Tree.below_fill]
      abel
    · rw [hPid, hn.laid.root_eq, Ctx.rootId_plug]
      rfl
    · rw [hP, Tree.flat_fill]
      simpa using hshows
  have hcount : AllowedIn cfg up (P.keyCount + 1) := by
    rw [hPcount, Nat.add_assoc]
    exact hn.around.count
  have hone : up.isTop = true → 1 ≤ P.keyCount := by
    intro htop
    rw [hPcount]
    by_contra hzero
    apply hroot
    refine ⟨htop, List.eq_nil_of_length_eq_zero (by omega), List.eq_nil_of_length_eq_zero (by omega)⟩
  have hbelow : P.SizedBelow (NodeSize cfg) := by
    rw [hP, Tree.sizedBelow_fill]
    exact ⟨hYsized, hn.around.left, hn.around.right⟩
  have hspec := shrinkParent_spec hp hheader hok' hcount hone hbelow hn.around.up
  rw [hPid] at hspec
  exact hspec

/-- The only child of the root takes its place. -/
theorem Laid.lowered (hlaid : Laid cfg s m E Y) (hv : cfg.Valid) (hY : Y.Sized (NodeSize cfg)) :
    Stores cfg s E := by
  have hdeg := hv.degree
  obtain ⟨hs, hroot, hheight, hshows⟩ := hlaid
  refine ⟨m, h, Y, hs, hroot, hheight, ⟨⟨?_, hY.1.2⟩, hY.2⟩, hshows⟩
  have hmin := hY.1.1
  rw [minKeysPerNonRootNode] at hmin
  omega

end Above

theorem eraseChild_isEmpty {left right : IndexSiblings h} {focus : ℕ} (b : Bool) :
    (b && ((frameData left focus ((k, S) :: right)).eraseChild
      left.length).separatorKeys.isEmpty) = true ↔ b = true ∧ left = [] ∧ right = [] := by
  rw [frameData_eraseChild]
  cases left <;> cases right <;> simp [frameData]

theorem mergeLeaf_spec (hv : cfg.Valid) {left right : IndexSiblings 0}
    {up : IndexCtx 1 H} {aid bid anext bnext : ℕ} {aes bes : List LeafEntry}
    (hn : Neighbours cfg s m E pid left (leaf aid anext aes) k (leaf bid bnext bes)
      right up)
    (hsize : NodeSize cfg (aes ++ bes).length) :
    Settles cfg E up pid
      (mergeLeafWithRightSibling aid (⟨pid, left.length⟩ :: searchPath up)) s := by
  have hs := hn.cells
  rw [cells_leaf, cells_leaf] at hs
  obtain ⟨parentHeader, hparent, hparentOk, hparentHeader⟩ := hs.readInternal (self_mem _ _)
  obtain ⟨headerA, hleafA, haes, hheaderA, hrootA, -⟩ := hs.readLeaf (mem_second _ _ _)
  obtain ⟨headerB, hleafB, hbes, hheaderB, -, hnextB⟩ := hs.readLeaf (mem_third _ _ _ _)
  have hleaves : readLeaves aid bid s = _ := readBoth_ok hleafA hleafB
  have hok : EntriesOk cfg (aes ++ bes) := by
    apply EntriesOk.of_entries hv hsize.2
    intro e he
    rcases List.mem_append.mp he with he | he
    exacts [haes.entry_ok e he, hbes.entry_ok e he]
  have hheaderA' : HeaderOk { headerA with nextLeafPageId := headerB.nextLeafPageId } :=
    ⟨hheaderA.parent_lt, hheaderB.next_lt⟩
  obtain ⟨s₁, hwrite, hs₁⟩ := (hs.cast (add_left_comm _ _ _)).writeLeafPage hheaderA' hok
  obtain ⟨Y, hY⟩ : ∃ Y : IndexTree 0, Y = leaf aid bnext (aes ++ bes) := ⟨_, rfl⟩
  have hYsized : Y.Sized (NodeSize cfg) := by
    rw [hY]
    exact ⟨hsize, trivial⟩
  have hshows : Shows LeafEntry.key m.firstLeafPageId invalidPageId E
      (up.before ++ (flatLeft left ++ (Y.flat ++ (flatRight right ++ up.after)))) := by
    have hflat := hn.laid.shows
    simp only [Ctx.flat_plug, Ctx.before, Ctx.after, Tree.flatRight_cons, flat_leaf,
      List.cons_append, List.append_assoc] at hflat
    rw [← List.append_assoc up.before] at hflat
    have hmerged := hflat.merge
    rw [hY, flat_leaf]
    simpa using hmerged
  have hparent' : readInternal pid s =
    (.ok (parentHeader, frameData left aid ((k, leaf bid bnext bes) :: right)), s) := hparent
  unfold Settles mergeLeafWithRightSibling
  dsimp only
  rw [bind_ok hparent']
  simp only [frameData_sibling, Tree.rootId_leaf]
  rw [bind_ok hleaves]
  rw [read_bind, hs.cfg_eq, buildLeafPage_ok _ hok]
  dsimp only
  rw [bind_ok hwrite]
  rw [hparentHeader.2]
  by_cases hcollapse : up.isTop = true ∧ left = [] ∧ right = []
  · rw [if_pos ((eraseChild_isEmpty _).mpr hcollapse)]
    obtain ⟨htop, rfl, rfl⟩ := hcollapse
    have hheaderA'' : HeaderOk { headerA with
        nextLeafPageId := headerB.nextLeafPageId, parentPageId := invalidPageId, isRoot := true } :=
      ⟨invalidPageId_lt, hheaderB.next_lt⟩
    obtain ⟨s₂, hwrite₂, hs₂⟩ := hs₁.writeLeaf hheaderA'' hok
    have haid : aid < 2 ^ 64 := (hs.id_lt (mem_second (aid, _) _ _)).trans (by decide)
    obtain ⟨f, hf⟩ : ∃ f : TreeMetadata → TreeMetadata, f = fun m =>
      { m with rootPageId := aid, firstLeafPageId := aid, treeHeight := 1 } := ⟨_, rfl⟩
    have hmeta : MetaOk cfg (f m) := by
      have hmok := hs.metadata_ok
      rw [hf]
      exact ⟨haid, haid, Nat.one_lt_two_pow (by decide), hmok.degree_eq, hmok.payload_eq⟩
    obtain ⟨s₃, hsave, hs₃⟩ := hs₂.saveMetadata hmeta hv.metadata_fits
    refine ⟨.merged, s₃, ?_, ?_⟩
    · rw [bind_ok hwrite₂, ← hf, bind_ok hsave]
      rfl
    · cases up with
      | frame gid gleft gright up => cases htop
      | top =>
        apply Laid.lowered (m := f m) (Y := Y) _ hv hYsized
        constructor
        · rw [hY, cells_leaf, ← hnextB]
          exact hs₃.mono (Multiset.le_add_right _ _)
        · rw [hf, hY]
          rfl
        · rw [hf]
        · have hfirst : m.firstLeafPageId = aid := by
            have hleads := hshows.leads
            rw [hY, flat_leaf] at hleads
            exact hleads.1
          rw [hf, ← hfirst]
          simpa [Ctx.before, Ctx.after, flatLeft, flatRight] using hshows
  · rw [if_neg (mt (eraseChild_isEmpty _).mp hcollapse)]
    have hs₁' : Holds cfg s₁ m ({(pid, .branch up.isTop
        (frameData left aid ((k, leaf bid bnext bes) :: right)).separatorKeys
        (frameData left aid ((k, leaf bid bnext bes) :: right)).childPageIds)} + (Y.cells false +
          (siblingCells left + siblingCells right + up.cells pid))) := by
      apply hs₁.mono
      rw [hY, cells_leaf, hrootA, hnextB, add_left_comm]
      exact add_le_add_right (add_le_add_right (Multiset.le_add_left _ _) _) _
    have hYid : Y.rootId = aid := by
      rw [hY]
      rfl
    exact hn.shrinkParent hv hYid hYsized hs₁' hparentHeader hparentOk hcollapse hshows

theorem mergeInternal_spec (hv : cfg.Valid) {left right : IndexSiblings (h + 1)}
    {X S : IndexTree (h + 1)} (hn : Neighbours cfg s m E pid left X k S right up)
    (hsize : NodeSize cfg (X.keyCount + S.keyCount + 1)) :
    Settles cfg E up pid
      (mergeInternalWithRightSibling X.rootId (⟨pid, left.length⟩ :: searchPath up)) s := by
  obtain ⟨aid, f, rx, rfl⟩ := X.exists_branch
  obtain ⟨bid, g, rs, rfl⟩ := S.exists_branch
  obtain ⟨Y, hY⟩ : ∃ Y : IndexTree (h + 1), Y = branch aid f (rx ++ (k, g) :: rs) := ⟨_, rfl⟩
  have hYid : Y.rootId = aid := by
    rw [hY]
    rfl
  have hYsized : Y.Sized (NodeSize cfg) := by
    rw [hY]
    refine ⟨?_, (Tree.sizedBelow_cut aid bid f g k rx rs).mpr ⟨hn.below_left, hn.below_right⟩⟩
    simpa [Nat.add_assoc] using hsize
  have hs : Holds cfg s m (sharingCells pid aid bid up.isTop
      (frameData left aid ((k, branch bid g rs) :: right))
      (.branch false (branch aid f rx).separators (branch aid f rx).children)
      (.branch false (branch bid g rs).separators (branch bid g rs).children)
      (Y.below + (siblingCells left + siblingCells right + up.cells pid))) := by
    apply hn.cells.cast
    rw [hY, Tree.below_cut aid bid, cells_eq, cells_eq, sharingCells]
    simp only [Tree.rootId_branch]
    abel
  obtain ⟨parentHeader, hparent, hparentOk, hparentHeader⟩ := hs.readInternal (self_mem _ _)
  obtain ⟨headerA, hnodeA, hXok, hheaderA, hrootA⟩ := hs.readInternal (mem_second _ _ _)
  obtain ⟨headerB, hnodeB, hSok, -⟩ := hs.readInternal (mem_third _ _ _ _)
  have hnodes : readInternals aid bid s = _ := readBoth_ok hnodeA hnodeB
  have hjoin : (⟨(branch aid f rx).separators, (branch aid f rx).children⟩ :
      InternalNodeData).join k ⟨(branch bid g rs).separators, (branch bid g rs).children⟩ =
      nodeData Y := by
    rw [hY]
    exact nodeData_join aid bid f g k rx rs
  have hk : KeyOk cfg k := hparentOk.keys_ok k (by simp [frameData])
  have hok : BranchOk cfg (nodeData Y) := by
    obtain ⟨hkeys, hids⟩ := join_ok hXok.keys_ok hXok.ids_lt hk hSok
    rw [hjoin] at hkeys hids
    exact branchOk_part hv hkeys hids (List.Subset.refl _) (List.Subset.refl _) hYsized.1.2
  obtain ⟨s₁, hwrite, hs₁⟩ := (hs.cast (add_left_comm _ _ _)).writeInternalPage hheaderA hok
  obtain ⟨s₂, hrewrite, hs₂⟩ := hs₁.adopt (X := Y) aid fun c hc => by simp [hc]
  have hshows : Shows LeafEntry.key m.firstLeafPageId invalidPageId E
      (up.before ++ (flatLeft left ++ (Y.flat ++ (flatRight right ++ up.after)))) := by
    have hflat := hn.laid.shows
    rw [hY, Tree.flat_cut aid bid]
    simpa [Ctx.flat_plug, Ctx.before, Ctx.after, Tree.flatRight_cons] using hflat
  have hparent' : readInternal pid s =
    (.ok (parentHeader, frameData left aid ((k, branch bid g rs) :: right)), s) := hparent
  unfold Settles mergeInternalWithRightSibling
  dsimp only
  rw [bind_ok hparent']
  simp only [frameData_sibling, Tree.rootId_branch]
  rw [bind_ok hnodes]
  rw [read_bind, hs.cfg_eq, frameData_separator, hjoin,
    buildInternalPage_ok _ hok]
  dsimp only
  rw [bind_ok hwrite, bind_ok hrewrite]
  rw [hparentHeader.2]
  by_cases hcollapse : up.isTop = true ∧ left = [] ∧ right = []
  · rw [if_pos ((eraseChild_isEmpty _).mpr hcollapse)]
    obtain ⟨htop, rfl, rfl⟩ := hcollapse
    have hheaderA' : HeaderOk { headerA with parentPageId := invalidPageId, isRoot := true } :=
      ⟨invalidPageId_lt, hheaderA.next_lt⟩
    obtain ⟨s₃, hwrite₃, hs₃⟩ := hs₂.writeInternal hheaderA' hok
    have haid : aid < 2 ^ 64 := (hs.id_lt (mem_second (aid, _) _ _)).trans (by decide)
    obtain ⟨f, hf⟩ : ∃ f : TreeMetadata → TreeMetadata, f = fun m =>
      { m with rootPageId := aid, treeHeight := m.treeHeight - 1 } := ⟨_, rfl⟩
    have hmeta : MetaOk cfg (f m) := by
      have hmok := hs.metadata_ok
      rw [hf]
      exact ⟨haid, hmok.first_lt, (Nat.sub_le _ _).trans_lt hmok.height_lt, hmok.degree_eq,
        hmok.payload_eq⟩
    obtain ⟨s₄, hsave, hs₄⟩ := hs₃.saveMetadata hmeta hv.metadata_fits
    refine ⟨.merged, s₄, ?_, ?_⟩
    · rw [bind_ok hwrite₃, ← hf, bind_ok hsave]
      rfl
    · cases up with
      | frame gid gleft gright up => cases htop
      | top =>
        apply Laid.lowered (m := f m) (Y := Y) _ hv hYsized
        constructor
        · apply hs₄.mono
          rw [cells_eq, hYid]
          apply add_le_add_right
          exact (Multiset.le_add_right _ _).trans
            ((Multiset.le_add_left _ _).trans (Multiset.le_add_left _ _))
        · rw [hf, hYid]
        · rw [hf]
          simp only [hn.laid.height_eq]
          omega
        · rw [hf]
          simpa [Ctx.before, Ctx.after, flatLeft, flatRight] using hshows
  · rw [if_neg (mt (eraseChild_isEmpty _).mp hcollapse)]
    have hs₂' : Holds cfg s₂ m ({(pid, .branch up.isTop
        (frameData left aid ((k, branch bid g rs) :: right)).separatorKeys
        (frameData left aid ((k, branch bid g rs) :: right)).childPageIds)} + (Y.cells false +
          (siblingCells left + siblingCells right + up.cells pid))) := by
      apply hs₂.mono
      apply Multiset.le_iff_exists_add.mpr
      refine ⟨{(bid, .branch false (branch bid g rs).separators
        (branch bid g rs).children)}, ?_⟩
      rw [cells_eq, hYid, hrootA]
      simp only [nodeData]
      abel
    exact hn.shrinkParent hv hYid hYsized hs₂' hparentHeader hparentOk hcollapse hshows

/-- Two neighbours that cannot share have few enough keys to become one node. -/
theorem Neighbours.fits {left right : IndexSiblings h} {up : IndexCtx (h + 1) H}
    (hn : Neighbours cfg s m E pid left X k S right up) (hv : cfg.Valid)
    (hcount : X.keyCount + S.keyCount < 2 * minKeysPerNonRootNode cfg ∨
      2 * maxKeysPerNode cfg < X.keyCount + S.keyCount) :
    NodeSize cfg (X.keyCount + S.keyCount) ∧ NodeSize cfg (X.keyCount + S.keyCount + 1) := by
  have hdeg := hv.degree
  have hlower := hn.lower
  have hupper := hn.upper
  simp only [NodeSize, minKeysPerNonRootNode, maxKeysPerNode] at *
  omega

/-- The neighbours share their keys if they can, and become one if not. -/
theorem settles_of_shared {up : IndexCtx (h + 1) H} {share : Action Bool}
    {merge : Action MergeOutcome} (h : (∃ s', share s = (.ok true, s') ∧ Stores cfg s' E) ∨
      share s = (.ok false, s) ∧ Settles cfg E up pid merge s) :
    Settles cfg E up pid (share >>= fun shared =>
      if shared = true then pure .merged else merge) s := by
  rcases h with ⟨s', hrun, hstores⟩ | ⟨hrun, outcome, s', hmerge, hsettled⟩
  · exact ⟨.merged, s', bind_ok hrun, hstores⟩
  · exact ⟨outcome, s', (bind_ok hrun).trans hmerge, hsettled⟩

theorem redistributeOrMerge_leaf (hv : cfg.Valid) {left right : IndexSiblings 0}
    {up : IndexCtx 1 H} {aid bid anext bnext : ℕ} {aes bes : List LeafEntry}
    (hn : Neighbours cfg s m E pid left (leaf aid anext aes) k (leaf bid bnext bes)
      right up) (header : NodeHeader) :
    Settles cfg E up pid
      (redistributeOrMerge aid (⟨pid, left.length⟩ :: searchPath up) (.leaf header aes)) s := by
  have hp := laid_plug_iff.mp hn.laid
  rw [cells_leaf, flat_leaf] at hp
  have haes : ∀ e ∈ aes, EntryOk cfg e := by
    obtain ⟨-, -, hok, -⟩ :=
      hp.holds.readLeaf (Multiset.mem_add.mpr (.inr (Multiset.mem_singleton_self _)))
    exact hok.entry_ok
  refine settles_of_shared ((redistributeLeaf_stores hv rfl hp haes hn.around).imp_right ?_)
  rintro ⟨hrun, hcount⟩
  have hsize := (hn.fits hv hcount).1
  exact ⟨hrun, mergeLeaf_spec hv hn (by simpa using hsize)⟩

theorem redistributeOrMerge_internal (hv : cfg.Valid)
    {left right : IndexSiblings (h + 1)} {X S : IndexTree (h + 1)}
    (hn : Neighbours cfg s m E pid left X k S right up) (header : NodeHeader) :
    Settles cfg E up pid (redistributeOrMerge X.rootId (⟨pid, left.length⟩ :: searchPath up)
      (.internal header (nodeData X))) s := by
  have hp := laid_plug_iff.mp hn.laid
  rw [cells_eq] at hp
  have hkeys : ∀ key ∈ X.separators, KeyOk cfg key := by
    obtain ⟨-, -, hok, -⟩ := hp.holds.readInternal (Multiset.mem_add.mpr (.inr (self_mem _ _)))
    exact hok.keys_ok
  refine settles_of_shared ((redistributeInternal_stores hv rfl hp hkeys hn.below_left
    hn.below_right hn.around).imp_right ?_)
  rintro ⟨hrun, hcount⟩
  exact ⟨hrun, mergeInternal_spec hv hn (hn.fits hv hcount).2⟩

end Merge

section Rebalance

variable {node : Node}

/-- The root node of a tree, as it is read from its page. -/
def IsNode (isRoot : Bool) : {h : ℕ} → IndexTree h → Node → Prop
  | 0, X, node => ∃ header, header.isRoot = isRoot ∧ node = .leaf header (Leaf.entries X)
  | _ + 1, X, node => ∃ header, header.isRoot = isRoot ∧ node = .internal header (nodeData X)

theorem Holds.readNode (hs : Holds cfg s m M) (X : IndexTree h) (isRoot : Bool)
    (hsub : ∀ c ∈ X.cells isRoot, c ∈ M) :
    ∃ node, BStarTree.readNode X.rootId s = (.ok node, s) ∧ IsNode isRoot X node := by
  have hmem := hsub _ (X.rootId_mem_cells isRoot)
  cases h with
  | zero =>
    obtain ⟨header, hread, hroot⟩ := hs.readNode_leaf hmem
    exact ⟨_, hread, header, hroot, rfl⟩
  | succ h =>
    obtain ⟨header, hread, hroot⟩ := hs.readNode_branch hmem
    exact ⟨_, hread, header, hroot, rfl⟩

theorem IsNode.isUnderfull {isRoot : Bool} (hnode : IsNode isRoot X node) :
    node.isUnderfull cfg = (!isRoot && decide (X.keyCount < minKeysPerNonRootNode cfg)) := by
  cases h with
  | zero =>
    obtain ⟨header, rfl, rfl⟩ := hnode
    rfl
  | succ h =>
    obtain ⟨header, rfl, rfl⟩ := hnode
    rw [Node.isUnderfull, nodeData, Tree.separators_length]

theorem redistributeOrMerge_spec (hv : cfg.Valid) {left right : IndexSiblings h}
    {up : IndexCtx (h + 1) H} {pid : ℕ} {k : Value}
    (hn : Neighbours cfg s m E pid left X k S right up) (hnode : IsNode false X node) :
    Settles cfg E up pid
      (redistributeOrMerge X.rootId (⟨pid, left.length⟩ :: searchPath up) node) s := by
  cases h with
  | zero =>
    obtain ⟨aid, anext, aes, rfl⟩ := X.exists_leaf
    obtain ⟨bid, bnext, bes, rfl⟩ := S.exists_leaf
    obtain ⟨header, -, rfl⟩ := hnode
    exact redistributeOrMerge_leaf hv hn header
  | succ h =>
    obtain ⟨header, -, rfl⟩ := hnode
    exact redistributeOrMerge_internal hv hn header

section Deficient

variable {left right : IndexSiblings h} {up : IndexCtx (h + 1) H} {X A : IndexTree h}
  {pid : ℕ} {k : Value}

/-- A node that lacks one key and a sibling have too few keys for three nodes. -/
theorem Deficient.counts {C : IndexCtx h H} (hd : Deficient cfg s E C X) (hv : cfg.Valid)
    (hA : NodeSize cfg A.keyCount) :
    2 * minKeysPerNonRootNode cfg ≤ X.keyCount + A.keyCount + 1 ∧
      X.keyCount + A.keyCount ≤ 2 * maxKeysPerNode cfg := by
  have hdeg := hv.degree
  have hcount := hd.count
  simp only [NodeSize, minKeysPerNonRootNode, maxKeysPerNode] at *
  omega

theorem Deficient.right_neighbours (hv : cfg.Valid)
    (hd : Deficient cfg s E (Ctx.frame pid left ((k, A) :: right) up) X) :
    ∃ m, Neighbours cfg s m E pid left X k A right up := by
  obtain ⟨m, hlaid⟩ := hd.laid
  obtain ⟨hA, haround⟩ := Ctx.sized_right_iff.mp hd.sized
  obtain ⟨hlower, hupper⟩ := hd.counts hv hA.1
  exact ⟨m, hlaid, haround, hd.below, hA.2, hlower, hupper⟩

theorem Deficient.left_neighbours (hv : cfg.Valid)
    (hd : Deficient cfg s E (Ctx.frame pid ((k, A) :: left) right up) X) :
    ∃ m, Neighbours cfg s m E pid left A k X right up := by
  obtain ⟨m, hlaid⟩ := hd.laid
  obtain ⟨hA, haround⟩ := Ctx.sized_left_iff.mp hd.sized
  obtain ⟨hlower, hupper⟩ := hd.counts hv hA.1
  rw [Nat.add_comm X.keyCount] at hlower hupper
  exact ⟨m, hlaid, haround, hA.2, hd.below, hlower, hupper⟩

theorem rebalanceNode_spec (hv : cfg.Valid)
    (hd : Deficient cfg s E (Ctx.frame pid left right up) X) :
    Settles cfg E up pid (rebalanceNode X.rootId ⟨pid, left.length⟩ (searchPath up)) s := by
  obtain ⟨m, hlaid⟩ := hd.laid
  have hs := hlaid.holds
  rw [Ctx.cells_plug] at hs
  obtain ⟨current, hcurrent, hnode⟩ := hs.readNode X false
    (fun c hc => Multiset.mem_add.mpr (.inr hc))
  have hunder : current.isUnderfull cfg = true := by
    have hcount := hd.count
    rw [hnode.isUnderfull]
    simp
    omega
  rw [cells_frame, add_assoc] at hs
  obtain ⟨header, hparent, -⟩ := hs.readInternal (self_mem _ _)
  have hlength : (frameData left X.rootId right).childPageIds.length =
      left.length + 1 + right.length := by
    simp [frameData]
    omega
  unfold Settles rebalanceNode
  rw [read_bind, bind_ok hcurrent, hs.cfg_eq,
    if_neg (by simp [hunder]), bind_ok hparent]
  dsimp only
  rw [hlength]
  cases right with
  | cons p right =>
    obtain ⟨k, S⟩ := p
    obtain ⟨m', hn⟩ := hd.right_neighbours hv
    obtain ⟨outcome, s', hrun, hsettled⟩ := redistributeOrMerge_spec hv hn hnode
    rw [if_pos (by simp), bind_ok hrun]
    cases outcome with
    | notMerged => cases hsettled
    | merged => exact ⟨.merged, s', rfl, hsettled⟩
    | parentUnderfull => exact ⟨.parentUnderfull, s', rfl, hsettled⟩
  | nil =>
    rw [if_neg (by simp), bind_ok (pure_apply _ s)]
    dsimp only
    cases left with
    | nil =>
      -- A parent has a separator, so its child has a sibling.
      have hcount := hd.sized.1
      have hdeg := hv.degree
      unfold Ctx.Allows at hcount
      split at hcount
      · exact absurd hcount.1 (by simp)
      · have hmin := hcount.1
        simp [minKeysPerNonRootNode] at hmin
        omega
    | cons p left =>
      obtain ⟨k, L⟩ := p
      obtain ⟨m', hn⟩ := hd.left_neighbours hv
      have hL := hn.laid.holds
      rw [Ctx.cells_plug] at hL
      obtain ⟨node, hread, hLnode⟩ := hL.readNode L false
        (fun c hc => Multiset.mem_add.mpr (.inr hc))
      obtain ⟨outcome, s', hrun, hsettled⟩ := redistributeOrMerge_spec hv hn hLnode
      have hleft : (frameData ((k, L) :: left) X.rootId []).childPageIds.getD
          (((k, L) :: left).length - 1) invalidPageId = L.rootId := by
        simp [frameData]
      refine ⟨outcome, s', ?_, hsettled⟩
      rw [if_neg (by simp), hleft, bind_ok hread]
      exact hrun

end Deficient

theorem rebalanceAfterDelete_spec (hv : cfg.Valid) {C : IndexCtx h H} (hd : Deficient cfg s E C X) :
    ∃ s', rebalanceAfterDelete X.rootId (searchPath C) s = (.ok (), s') ∧ Stores cfg s' E := by
  induction C generalizing s with
  | top => cases hd.isTop_eq
  | frame pid left right up ih =>
    obtain ⟨outcome, s₁, hrun, hsettled⟩ := rebalanceNode_spec hv hd
    rw [searchPath, rebalanceAfterDelete, bind_ok hrun]
    cases outcome with
    | notMerged => cases hsettled
    | merged => exact ⟨s₁, rfl, hsettled⟩
    | parentUnderfull =>
      obtain ⟨P, rfl, hP⟩ := hsettled
      exact ih hP

end Rebalance

section Delete

variable {C : IndexCtx 0 H} {id next : ℕ} {entries : List LeafEntry} {key : Value} {e : LeafEntry}

theorem exists_deleted (hs : entries.Pairwise fun a b => a.key < b.key)
    (hfound : lookup LeafEntry.key entries key = some e) :
    ∃ x y, entries = x ++ e :: y ∧ findEntryPosition entries key = x.length := by
  obtain ⟨x, y, hxy, hpos, -⟩ := exists_entryPosition hs key
  refine ⟨x, y.tail, ?_, hpos⟩
  rw [← entryAt_eq_lookup hs, hpos] at hfound
  obtain ⟨hget, -⟩ := Option.filter_eq_some_iff.mp hfound
  rw [hxy, List.getElem?_append_right le_rfl, Nat.sub_self] at hget
  cases y with
  | nil => cases hget
  | cons e' y =>
    obtain rfl : e' = e := by simpa using hget
    exact hxy

section

variable (hv : cfg.Valid) (hst : Stored cfg s m E (C.plug (leaf id next entries)))
  (hrouted : C.Routed key) (hpresent : lookup LeafEntry.key E key = some e)
include hv hst hrouted hpresent

/-- What a deletion leaves of a leaf, and that the leaf can be written back. -/
theorem exists_remaining :
    ∃ (E' remaining : List LeafEntry) (header : NodeHeader),
      readLeaf id s = (.ok (header, entries), s) ∧ header.isRoot = C.isTop ∧
      (entries[findEntryPosition entries key]?.filter fun entry => entry.key = key) = some e ∧
      entries.eraseIdx (findEntryPosition entries key) = remaining ∧
      entries.length = remaining.length + 1 ∧
      lookup LeafEntry.key E' = Function.update (lookup LeafEntry.key E) key none ∧
      (remaining = [] → C.isTop = true → E' = []) ∧
      ∀ (c : Prop) [Decidable c], (c → remaining ≠ []) →
        ∃ (C' : IndexCtx 0 H) (s₁ s₂ : BStarTree),
          writeLeaf id header remaining s = (.ok (), s₁) ∧
          (if c then updateParentSeparatorAfterChildChange (frontKey remaining) (searchPath C) else
            (pure () : Action Unit)) s₁ = (.ok (), s₂) ∧
          SameShape cfg C C' ∧ Laid cfg s₂ m E' (C'.plug (leaf id next remaining)) := by
  obtain ⟨⟨hs, hroot, hheight, hshows⟩, hC, hcount, -⟩ := hst.unplug
  rw [flat_leaf] at hshows
  rw [cells_leaf, Tree.rootId_leaf] at hs
  rw [lookup_of_routed hrouted hshows] at hpresent
  obtain ⟨x, y, hxy, hpos⟩ := exists_deleted hshows.leaf_sorted hpresent
  obtain rfl : e.key = key := by simpa using List.find?_some hpresent
  have hentry : (entries[findEntryPosition entries e.key]?.filter fun entry => entry.key = e.key) =
      some e := by
    rw [entryAt_eq_lookup hshows.leaf_sorted, hpresent]
  rw [hxy] at hshows
  obtain ⟨E', hshows', hlookup⟩ := hshows.erase_routed hrouted
  obtain ⟨header, hread, hentries, hheader⟩ :=
    hs.readLeaf (Multiset.mem_add.mpr (.inr (Multiset.mem_singleton_self _)))
  have hremaining : entries.eraseIdx (findEntryPosition entries e.key) = x ++ y := by
    rw [hpos, hxy, eraseIdx_append _ _ _ rfl]
  have hlength : entries.length = (x ++ y).length + 1 := by
    rw [hxy]
    simp only [List.length_append, List.length_cons]
    omega
  have hok : ∀ e' ∈ x ++ y, EntryOk cfg e' := by
    intro e' he'
    apply hentries.entry_ok
    rw [hxy]
    simp only [List.mem_append, List.mem_cons] at he' ⊢
    tauto
  have hle : (x ++ y).length ≤ maxKeysPerNode cfg := by
    have hmax := hcount.le
    rw [keyCount_leaf] at hmax
    omega
  refine ⟨E', x ++ y, header, hread, hheader.2.1, hentry, hremaining, hlength, hlookup, ?_, ?_⟩
  · intro hempty htop
    cases C with
    | frame pid left right up => cases htop
    | top =>
      rw [← hshows'.entries_eq, hempty]
      rfl
  · intro c _ hc
    exact rewriteLeaf_spec hv ⟨hs, hroot, hheight, hshows'⟩ hC hheader hok hle c hc

theorem deleteFromLeaf_spec :
    ∃ E' s', deleteFromLeaf id (searchPath C) key s = (.ok (), s') ∧ Represents cfg s' E' ∧
      lookup LeafEntry.key E' = Function.update (lookup LeafEntry.key E) key none := by
  obtain ⟨E', remaining, header, hread, hisRoot, hentry, hremaining, hlength, hlookup, hnone,
    hrewrite⟩ := exists_remaining hv hst hrouted hpresent
  obtain ⟨⟨hs, -⟩, hC, hcount, -⟩ := hst.unplug
  have hle : remaining.length ≤ maxKeysPerNode cfg := by
    have hmax := hcount.le
    rw [keyCount_leaf] at hmax
    omega
  unfold deleteFromLeaf
  rw [read_bind, bind_ok hread]
  dsimp only
  rw [hentry, if_neg (by simp), hremaining, hisRoot]
  by_cases htop : C.isTop = true
  · rw [if_pos htop]
    by_cases hempty : remaining = []
    · rw [if_pos (by simp [hempty])]
      obtain ⟨f, hf⟩ : ∃ f : TreeMetadata → TreeMetadata, f = fun m =>
        { m with rootPageId := invalidPageId, firstLeafPageId := invalidPageId, treeHeight := 0 } :=
        ⟨_, rfl⟩
      have hmeta : MetaOk cfg (f m) := by
        have hmok := hs.metadata_ok
        rw [hf]
        exact ⟨invalidPageId_lt, invalidPageId_lt, Nat.two_pow_pos 64, hmok.degree_eq,
          hmok.payload_eq⟩
      obtain ⟨s₁, hsave, hs₁⟩ := hs.saveMetadata hmeta hv.metadata_fits
      refine ⟨E', s₁, by rw [← hf, hsave], ?_, hlookup⟩
      rw [hnone hempty htop]
      apply Represents.empty (hs₁.mono (Multiset.zero_le _)) <;> rw [hf]
    · rw [if_neg (by simpa using hempty)]
      obtain ⟨C', s₁, s₂, hwrite, hrefresh, hshape, hlaid⟩ :=
        hrewrite (findEntryPosition entries key = 0) (fun _ => hempty)
      refine ⟨E', s₂, (bind_ok hwrite).trans hrefresh, ?_, hlookup⟩
      apply Stores.represents
      apply hlaid.stores (hshape.sized hC) _ trivial
      rw [AllowedIn, Ctx.Allows, hshape.isTop_eq, if_pos htop, keyCount_leaf]
      exact ⟨List.length_pos_of_ne_nil hempty, hle⟩
  · rw [if_neg htop]
    obtain ⟨C', s₁, s₂, hwrite, hrefresh, hshape, hlaid⟩ :=
      hrewrite ((!remaining.isEmpty) = true ∧ findEntryPosition entries key = 0)
        (fun hc => by simpa using hc.1)
    have hfalse : C.isTop = false := by simpa using htop
    have hunder : (Node.leaf header remaining).isUnderfull s.cfg =
        decide (remaining.length < minKeysPerNonRootNode cfg) := by
      rw [hs.cfg_eq, Node.isUnderfull, hisRoot, hfalse]
      rfl
    rw [bind_ok hwrite]
    have hrest := ite_bind_ok (f := fun _ =>
      if (Node.leaf header remaining).isUnderfull s.cfg then rebalanceAfterDelete id (searchPath C)
      else pure ()) hrefresh
    have hmin : minKeysPerNonRootNode cfg ≤ remaining.length + 1 := by
      rw [AllowedIn, Ctx.Allows, hfalse, keyCount_leaf, hlength] at hcount
      exact hcount.1
    by_cases hdeficient : remaining.length < minKeysPerNonRootNode cfg
    · have hd : Deficient cfg s₂ E' C' (leaf id next remaining) :=
        ⟨⟨m, hlaid⟩, hshape.isTop_eq.trans hfalse, hshape.sized hC, trivial,
          le_antisymm hdeficient hmin⟩
      obtain ⟨s₃, hrebalance, hstores⟩ := rebalanceAfterDelete_spec hv hd
      refine ⟨E', s₃, hrest.trans ?_, hstores.represents, hlookup⟩
      rw [if_pos (by simpa [hunder] using hdeficient), ← hshape.path_eq]
      exact hrebalance
    · refine ⟨E', s₂, hrest.trans ?_, ?_, hlookup⟩
      · rw [if_neg (by simpa [hunder] using hdeficient)]
        rfl
      · apply Stores.represents
        apply hlaid.stores (hshape.sized hC) _ trivial
        rw [AllowedIn, Ctx.Allows, hshape.isTop_eq, hfalse, keyCount_leaf]
        exact ⟨not_lt.mp hdeficient, hle⟩

end

theorem delete_present (hv : cfg.Valid) (hrep : Represents cfg s E) (hkey : KeyOk cfg key)
    (hpresent : lookup LeafEntry.key E key = some e) :
    ∃ E' s', delete key s = (.ok (), s') ∧ Represents cfg s' E' ∧
      lookup LeafEntry.key E' = Function.update (lookup LeafEntry.key E) key none := by
  cases hrep with
  | empty hs hroot hfirst hheight => cases hpresent
  | tree hst =>
    obtain ⟨C, id, next, entries, hT, hrouted, hfind⟩ := hst.findPathToLeaf key
    unfold delete
    rw [read_bind, hst.holds.isOpen, if_neg (by simp),
      bind_ok (hkey.validate hv hst.holds), if_neg hst.root_ne,
      bind_ok hfind, hpresent]
    rw [← hT] at hst
    exact deleteFromLeaf_spec hv hst hrouted hpresent

theorem delete_absent (hv : cfg.Valid) (hrep : Represents cfg s E) (hkey : KeyOk cfg key)
    (habsent : lookup LeafEntry.key E key = none) :
    delete key s = (.error (.status keyNotFound), s) := by
  unfold delete
  rw [read_bind]
  cases hrep with
  | empty hs hroot hfirst hheight =>
    rw [hs.isOpen, if_neg (by simp), bind_ok (hkey.validate hv hs),
      hs.metadata_eq, if_pos hroot]
    rfl
  | tree hst =>
    obtain ⟨C, id, next, entries, -, -, hfind⟩ := hst.findPathToLeaf key
    rw [hst.holds.isOpen, if_neg (by simp),
      bind_ok (hkey.validate hv hst.holds), if_neg hst.root_ne,
      bind_ok hfind, habsent]
    rfl

end Delete

end CourseDb.BStarTree

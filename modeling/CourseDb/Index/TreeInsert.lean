import CourseDb.Index.TreeRedistribute

/-! # Insertion into the stored tree

A leaf or branch with one key too many shares with its right sibling or is
split, and the separator of a split goes into the parent. Above the leaves none
of this changes what the tree shows from left to right.
-/

namespace CourseDb.BStarTree

open Fallible (read_bind bind_ok)
open BTree
open Fallible.Runs (after of_ok)
open BTree.Tree (cells_eq flat_leaf branch leaf)

variable {cfg : Config} {s : BStarTree} {m : TreeMetadata} {M : NodeCells} {h H : ℕ}
  {E : List LeafEntry} {header : NodeHeader} {key : Value}

section Split

variable {k : Value} {pid rootPage : ℕ} {l r : IndexTree h} {X : IndexTree (h + 1)}

/-- A new root over two nodes is stored as the tree. -/
theorem raiseRoot_spec (hv : cfg.Valid) {v : View Value LeafEntry}
    (hs : Holds cfg s m ({(rootPage, v)} + (l.cells false + r.cells false)))
    (hk : KeyOk cfg k) (hl : l.Sized (NodeSize cfg)) (hr : r.Sized (NodeSize cfg))
    (hheight : m.treeHeight = h + 1)
    (hshows : Shows LeafEntry.key m.firstLeafPageId invalidPageId E
      (l.flat ++ .separator k :: r.flat))
    {f : TreeMetadata → TreeMetadata}
    (hf : f m = { m with
      rootPageId := rootPage, treeHeight := (m.treeHeight + 1) % 2 ^ 64 }) :
    ∃ s₁ s₂, writeRoot rootPage l.rootId k r.rootId s = (.ok (), s₁) ∧
      saveMetadata f s₁ = (.ok (), s₂) ∧ Stores cfg s₂ E := by
  obtain ⟨T, hT⟩ : ∃ T, T = branch rootPage l [(k, r)] := ⟨_, rfl⟩
  have hdeg := hv.degree
  have hone : 1 ≤ maxKeysPerNode cfg := by
    rw [maxKeysPerNode]
    omega
  have hl_lt : l.rootId < 2 ^ 63 :=
    hs.id_lt (Multiset.mem_add.mpr (.inr (Multiset.mem_add.mpr (.inl (l.rootId_mem_cells false)))))
  have hr_lt : r.rootId < 2 ^ 63 :=
    hs.id_lt (Multiset.mem_add.mpr (.inr (Multiset.mem_add.mpr (.inr (r.rootId_mem_cells false)))))
  have hnode : BranchOk cfg ⟨[k], [l.rootId, r.rootId]⟩ := by
    apply BranchOk.of_keys hv
    · rfl
    · exact hone
    · simpa using hk
    · simp only [List.mem_cons, List.not_mem_nil, or_false]
      rintro id (rfl | rfl) <;> omega
  have hheader : HeaderOk ⟨.kInternal, 0, invalidPageId, invalidPageId, true⟩ :=
    ⟨invalidPageId_lt, invalidPageId_lt⟩
  obtain ⟨s₁, hwrite, hs₁⟩ := hs.writeInternal hheader hnode
  have hs₁' : Holds cfg s₁ m (T.cells true) := by
    apply hs₁.cast
    rw [hT, cells_eq, Tree.below_branch, Tree.siblingCells_cons, Tree.siblingCells_nil,
      add_zero]
    rfl
  have hcard : h + 1 < s₁.pageManager.pages.length :=
    (T.height_lt_card_cells true).trans_le hs₁'.card_le
  have hheight' : (f m).treeHeight = h + 2 := by
    have hcount := hs₁'.count_lt
    rw [hf, hheight]
    exact Nat.mod_eq_of_lt (by omega)
  have hroot_lt : rootPage < 2 ^ 63 := hs.id_lt (self_mem _ _)
  have hmeta : MetaOk cfg (f m) := by
    have hok := hs.metadata_ok
    have hcount := hs₁'.count_lt
    refine ⟨?_, ?_, by omega, ?_, ?_⟩ <;> rw [hf]
    · exact hroot_lt.trans (by decide)
    · exact hok.first_lt
    · exact hok.degree_eq
    · exact hok.payload_eq
  obtain ⟨s₂, hsave, hs₂⟩ := hs₁'.saveMetadata hmeta hv.metadata_fits
  refine ⟨s₁, s₂, hwrite, hsave, f m, h + 1, T, hs₂, ?_, hheight', ?_, ?_⟩
  · rw [hf, hT]
    rfl
  · rw [hT]
    exact ⟨⟨le_refl 1, hone⟩, (Tree.sizedBelow_branch _ _ _).mpr ⟨hl, by simpa using hr⟩⟩
  · rw [hf, hT, Tree.flat_branch, Tree.flatRight_cons]
    simpa [Tree.flatRight] using hshows

theorem writeSplitInternals_spec {S : IndexTree (h + 1)} {a b : View Value LeafEntry}
    (hs : Holds cfg s m ({(X.rootId, a)} + ({(S.rootId, b)} + (X.below + S.below + M))))
    (hheader : HeaderOk header) (hroot : header.isRoot = false) (hX : BranchOk cfg (nodeData X))
    (hS : BranchOk cfg (nodeData S)) :
    ∃ s', writeSplitInternals X.rootId S.rootId header (nodeData X) (nodeData S) s = (.ok (), s') ∧
      Holds cfg s' m (M + (X.cells false + S.cells false)) := by
  obtain ⟨s₁, hwrite₁, hs₁⟩ := hs.writeInternal hheader hX
  obtain ⟨s₂, hwrite₂, hs₂⟩ := (hs₁.cast (add_left_comm _ _ _)).writeInternal hheader hS
  obtain ⟨s₃, hrewrite₃, hs₃⟩ := hs₂.adopt (X := X) X.rootId fun c hc => by simp [hc]
  obtain ⟨s₄, hrewrite₄, hs₄⟩ := hs₃.adopt (X := S) S.rootId fun c hc => by simp [hc]
  refine ⟨s₄, ?_, ?_⟩
  · unfold writeSplitInternals
    rw [bind_ok hwrite₁, bind_ok hwrite₂, bind_ok hrewrite₃]
    exact hrewrite₄
  · apply hs₄.cast
    rw [cells_eq, cells_eq, hroot]
    simp only [nodeData]
    abel

/-- What a split below hands to the level above: two nodes and the separator between them. -/
def HandsUp (cfg : Config) (m : TreeMetadata) {h H : ℕ} (up : IndexCtx (h + 1) H) (pid : ℕ)
    (F : List (Item Value LeafEntry)) (k : Value) (rightPage : ℕ) (s : BStarTree) : Prop :=
  ∃ l r : IndexTree (h + 1), l.rootId = pid ∧ r.rootId = rightPage ∧ KeyOk cfg k ∧
    l.Sized (NodeSize cfg) ∧ r.Sized (NodeSize cfg) ∧ l.flat ++ .separator k :: r.flat = F ∧
    up.isTop = false ∧ Holds cfg s m (up.cells pid + (l.cells false + r.cells false))

/-- A branch with one separator too many, cut at its middle. -/
theorem exists_middle (hv : cfg.Valid) (hs : Holds cfg s m (X.below + M))
    (hkeys : ∀ key ∈ X.separators, KeyOk cfg key) (hcount : X.keyCount = maxKeysPerNode cfg + 1)
    (hsized : X.SizedBelow (NodeSize cfg)) :
    ∃ f l k c r, X = branch X.rootId f (l ++ (k, c) :: r) ∧ l.length = cfg.minDegree - 1 ∧
      KeyOk cfg k ∧ ∀ id, (branch X.rootId f l).Sized (NodeSize cfg) ∧
        (branch id c r).Sized (NodeSize cfg) ∧
        BranchOk cfg (nodeData (branch X.rootId f l)) ∧
        BranchOk cfg (nodeData (branch id c r)) := by
  have hdeg := hv.degree
  have hids := hs.children_lt (X := X) fun c hc => by simp [hc]
  obtain ⟨pid, f, rest, rfl⟩ := X.exists_branch
  rw [Tree.keyCount_branch, maxKeysPerNode] at hcount
  obtain ⟨l, p, r, rfl, hl⟩ := Tree.exists_cut (l := rest) (m := cfg.minDegree - 1) (by omega)
  obtain ⟨k, c⟩ := p
  rw [List.length_append, List.length_cons] at hcount
  have hlsize : NodeSize cfg l.length := by
    simp only [NodeSize, minKeysPerNonRootNode, maxKeysPerNode]
    omega
  have hrsize : NodeSize cfg r.length := by
    simp only [NodeSize, minKeysPerNonRootNode, maxKeysPerNode]
    omega
  refine ⟨f, l, k, c, r, rfl, hl, hkeys k (by simp), ?_⟩
  intro id
  obtain ⟨hlbelow, hrbelow⟩ := (Tree.sizedBelow_cut pid id f c k l r).mp hsized
  obtain ⟨-, hlok, hrok⟩ := branchOk_cut hv hkeys hids hlsize hrsize id
  exact ⟨⟨hlsize, hlbelow⟩, ⟨hrsize, hrbelow⟩, hlok, hrok⟩

theorem splitInternal_runs (hv : cfg.Valid) {up : IndexCtx (h + 1) H} {separators : List Value}
    {children : List ℕ} (hp : Pending cfg s m E up X.rootId
      ({(X.rootId, .branch up.isTop separators children)} + X.below) X.flat)
    (hkeys : ∀ key ∈ X.separators, KeyOk cfg key) (hcount : X.keyCount = maxKeysPerNode cfg + 1)
    (hsized : X.SizedBelow (NodeSize cfg)) :
    Fallible.Runs OutOfPages (splitInternal X.rootId (searchPath up) (nodeData X)) s
      fun result s' =>
        match result with
        | none => Stores cfg s' E
        | some (k, rightPage) => HandsUp cfg m up X.rootId X.flat k rightPage s' := by
  have hs := hp.holds
  have hs₀ : Holds cfg s m
      ({(X.rootId, .branch up.isTop separators children)} + (X.below + up.cells X.rootId)) := by
    apply hs.cast
    abel
  obtain ⟨header, hread, -, hheader, -⟩ := hs₀.readInternal (self_mem _ _)
  have hbelow : Holds cfg s m
      (X.below + ({(X.rootId, .branch up.isTop separators children)} + up.cells X.rootId)) := by
    apply hs.cast
    abel
  obtain ⟨f, l, k, c, r, hX, hl, hk, hhalves⟩ := exists_middle hv hbelow hkeys hcount hsized
  have hsplit : (nodeData X).splitAt (cfg.minDegree - 1) =
      (nodeData (branch X.rootId f l), nodeData (branch 0 c r)) := by
    rw [hX, ← hl]
    exact nodeData_splitAt X.rootId 0 f c k l r
  have hpromoted : (nodeData X).separatorKeys.getD (cfg.minDegree - 1) .null = k := by
    rw [hX, ← hl]
    exact nodeData_separator X.rootId f c k l r .null
  have hlength : (nodeData X).separatorKeys.length = maxKeysPerNode cfg + 1 := by
    rw [nodeData, Tree.separators_length, hcount]
  unfold splitInternal
  apply Fallible.Runs.read_bind
  rw [hs.cfg_eq, if_neg (by simpa using hlength)]
  apply after hread
  dsimp only
  rw [hpromoted, hsplit]
  rw [if_neg (by simp [nodeData])]
  apply Fallible.Runs.bind (hs₀.allocateNodePage hv.pageSize_pos)
  intro rightPage s₁ hs₁
  obtain ⟨hL, hR, hLok, hRok⟩ := hhalves rightPage
  have hflat : (branch X.rootId f l).flat ++ .separator k :: (branch rightPage c r).flat =
      X.flat := by
    rw [← Tree.flat_cut, ← hX]
  have hs₁' : Holds cfg s₁ m
      ({((branch X.rootId f l).rootId, .branch up.isTop separators children)} +
        ({((branch rightPage c r).rootId, .free)} +
          ((branch X.rootId f l).below + (branch rightPage c r).below +
            up.cells X.rootId))) := by
    apply hs₁.cast
    rw [← Tree.below_cut, ← hX]
    exact add_left_comm _ _ _
  cases up with
  | top =>
    apply Fallible.Runs.bind (hs₁'.allocateNodePage hv.pageSize_pos)
    intro rootPage s₂ hs₂
    have hrootPage : rootPage < 2 ^ 63 := hs₂.id_lt (self_mem _ _)
    have hheader' : HeaderOk { header with
        isRoot := false, parentPageId := rootPage, nextLeafPageId := invalidPageId } :=
      ⟨hrootPage.trans (by decide), invalidPageId_lt⟩
    have hs₂' : Holds cfg s₂ m
        ({((branch X.rootId f l).rootId, .branch true separators children)} +
          ({((branch rightPage c r).rootId, .free)} +
            ((branch X.rootId f l).below + (branch rightPage c r).below +
              {(rootPage, .free)}))) := by
      apply hs₂.cast
      rw [Ctx.cells, Ctx.isTop, add_zero]
      abel
    obtain ⟨s₃, hwrite, hs₃⟩ := writeSplitInternals_spec hs₂' hheader' rfl hLok hRok
    have hshows := hp.shows
    rw [← hflat] at hshows
    obtain ⟨s₄, s₅, hroot, hsave, hstores⟩ := raiseRoot_spec hv hs₃ hk hL hR hp.height_eq
      (by simpa [Ctx.before, Ctx.after] using hshows) (f := fun m =>
        { m with rootPageId := rootPage, treeHeight := (m.treeHeight + 1) % 2 ^ 64 }) rfl
    apply after hwrite
    apply after hroot
    apply after hsave
    exact of_ok rfl hstores
  | frame gid left right up =>
    have hgid : gid < 2 ^ 63 := by
      apply hs.id_lt (c := (gid, _))
      rw [cells_frame, add_assoc]
      exact self_mem _ _
    have hheader' : HeaderOk { header with
        isRoot := false, parentPageId := gid, nextLeafPageId := invalidPageId } :=
      ⟨hgid.trans (by decide), invalidPageId_lt⟩
    obtain ⟨s₂, hwrite, hs₂⟩ := writeSplitInternals_spec hs₁' hheader' rfl hLok hRok
    apply after hwrite
    exact of_ok rfl ⟨branch X.rootId f l, branch rightPage c r, rfl, rfl,
      hk, hL, hR, hflat, rfl, hs₂⟩

end Split

section Internal

variable {up : IndexCtx (h + 1) H} {X : IndexTree (h + 1)} {separators : List Value}
  {children : List ℕ} {k : Value} {C : IndexCtx h H}

/-- A branch with one separator too many is relieved by its right sibling, or nothing happens. -/
theorem redistributeInternal_insert (hv : cfg.Valid)
    (hp : Pending cfg s m E up X.rootId
      ({(X.rootId, .branch up.isTop separators children)} + X.below) X.flat)
    (hkeys : ∀ key ∈ X.separators, KeyOk cfg key) (hXsized : X.SizedBelow (NodeSize cfg))
    (hup : SizedCtx cfg up) :
    redistributeInternalWithRightSibling X.rootId (searchPath up) (nodeData X) s = (.ok false, s) ∨
      ∃ s', redistributeInternalWithRightSibling X.rootId (searchPath up) (nodeData X) s =
        (.ok true, s') ∧ Stores cfg s' E := by
  cases up with
  | top => exact .inl rfl
  | frame gid left right up =>
    cases right with
    | nil => exact .inl ((redistribute_no_sibling hp.holds).2 _)
    | cons p right =>
      obtain ⟨k, S⟩ := p
      obtain ⟨hS, haround⟩ := Ctx.sized_right_iff.mp hup
      rcases redistributeInternal_stores hv rfl hp hkeys hXsized hS.2 haround with hstores | hfalse
      · exact .inr hstores
      · exact .inl hfalse.1

theorem insertIntoInternalNode_runs (hv : cfg.Valid) {node : InternalNodeData} {index rid n : ℕ}
    (hp : Pending cfg s m E up X.rootId
      ({(X.rootId, .branch up.isTop node.separatorKeys node.childPageIds)} + X.below) X.flat)
    (hexpanded : node.insertChild index k rid = nodeData X) (hrid : rid ∈ X.children)
    (hkeys : ∀ key ∈ X.separators, KeyOk cfg key) (hcount : X.keyCount = n + 1)
    (hn : AllowedIn cfg up n) (hXsized : X.SizedBelow (NodeSize cfg)) (hup : SizedCtx cfg up) :
    Fallible.Runs OutOfPages (insertIntoInternalNode X.rootId (searchPath up) index k rid) s
      fun result s' =>
        match result with
        | none => Stores cfg s' E
        | some (k, rightPage) => HandsUp cfg m up X.rootId X.flat k rightPage s' := by
  have hs := hp.holds
  have hs₀ : Holds cfg s m
      ({(X.rootId, .branch up.isTop node.separatorKeys node.childPageIds)} +
        (X.below + up.cells X.rootId)) := by
    apply hs.cast
    abel
  obtain ⟨header, hread, -, hheader, hisRoot⟩ := hs₀.readInternal (self_mem _ _)
  unfold insertIntoInternalNode
  apply Fallible.Runs.read_bind
  apply after hread
  dsimp only
  have hlength : (nodeData X).separatorKeys.length = n + 1 := by
    rw [nodeData, Tree.separators_length, hcount]
  rw [hexpanded, hs.cfg_eq, hlength]
  by_cases hfits : n + 1 ≤ maxKeysPerNode cfg
  · rw [if_pos hfits]
    have hids := hs.children_lt (X := X) fun c hc => by simp [hc]
    obtain ⟨s₁, hwrite, hs₁⟩ := hs₀.writeInternal hheader
      (branchOk_part hv (show ∀ key ∈ (nodeData X).separatorKeys, KeyOk cfg key from hkeys) hids
        (List.Subset.refl _) (List.Subset.refl _) (by omega))
    obtain ⟨v, hfree, hmem⟩ := X.exists_mem_below hrid
    obtain ⟨s₂, hrewrite, hs₂⟩ :=
      hs₁.rewriteChildParent_of_mem hfree
        (Multiset.mem_add.mpr (.inr (Multiset.mem_add.mpr (.inl hmem)))) X.rootId
    apply after hwrite
    apply after hrewrite
    apply of_ok rfl
    have hlaid : Laid cfg s₂ m E (up.plug X) := by
      refine laid_plug_iff.mpr ⟨?_, hp.root_eq, hp.height_eq, hp.shows⟩
      apply hs₂.cast
      rw [cells_eq, hisRoot]
      simp only [nodeData]
      abel
    exact hlaid.stores hup (hcount ▸ hn.succ hfits) hXsized
  · rw [if_neg hfits]
    have hfull : X.keyCount = maxKeysPerNode cfg + 1 := by
      have := hn.le
      omega
    rcases redistributeInternal_insert hv hp hkeys hXsized hup with
      hrun | ⟨s', hrun, hstores⟩
    · apply after hrun
      exact splitInternal_runs hv hp hkeys hfull hXsized
    · apply after hrun
      exact of_ok rfl hstores

theorem searchPath_eq_nil (hpath : searchPath C = []) : C.isTop = true := by
  cases C with
  | top => rfl
  | frame id left right up => cases hpath

theorem insertIntoInternal_runs (hv : cfg.Valid) {l r : IndexTree h} {link : SearchPathEntry}
    {path : List SearchPathEntry} (hpath : searchPath C = link :: path)
    (hp : Pending cfg s m E C l.rootId (l.cells false + r.cells false)
      (l.flat ++ .separator k :: r.flat))
    (hk : KeyOk cfg k) (hl : l.Sized (NodeSize cfg)) (hr : r.Sized (NodeSize cfg))
    (hC : SizedCtx cfg C) :
    Fallible.Runs OutOfPages (insertIntoInternal link.pageId path link.childIndex k r.rootId) s
      fun _ s' => Stores cfg s' E := by
  induction C generalizing k s link path with
  | top => cases hpath
  | frame id left right up ih =>
    obtain ⟨rfl, rfl⟩ : ⟨id, left.length⟩ = link ∧ searchPath up = path := by
      simpa [searchPath] using hpath
    obtain ⟨X, hX⟩ : ∃ X, X = Tree.fill id left l ((k, r) :: right) := ⟨_, rfl⟩
    have hXid : X.rootId = id := by rw [hX, Tree.rootId_fill]
    have hpX : Pending cfg s m E up X.rootId ({(X.rootId, .branch up.isTop
        (frameData left l.rootId right).separatorKeys
        (frameData left l.rootId right).childPageIds)} + X.below) X.flat := by
      refine ⟨?_, ?_, hp.height_eq, ?_⟩
      · apply hp.holds.cast
        rw [cells_frame, hXid, hX, Tree.below_fill, Tree.siblingCells_cons]
        abel
      · rw [hXid]
        exact hp.root_eq
      · rw [hX, Tree.flat_fill, Tree.flatRight_cons]
        simpa [Ctx.before, Ctx.after] using hp.shows
    obtain ⟨header, -, hok, -⟩ := hpX.holds.readInternal
      (Multiset.mem_add.mpr (.inr (self_mem _ _)))
    have hexpanded : (frameData left l.rootId right).insertChild left.length k r.rootId =
        nodeData X := by
      rw [hX]
      exact frameData_insertChild id l r
    have hrid : r.rootId ∈ X.children := by
      rw [hX]
      simp
    have hkeys : ∀ key ∈ X.separators, KeyOk cfg key := by
      rw [hX, Tree.separators_fill]
      intro key hkey
      simp only [List.map_cons, List.mem_append, List.mem_cons] at hkey
      rcases hkey with hkey | rfl | hkey
      · exact hok.keys_ok key (List.mem_append.mpr (.inl hkey))
      · exact hk
      · exact hok.keys_ok key (List.mem_append.mpr (.inr hkey))
    have hcount : X.keyCount = left.length + right.length + 1 := by
      rw [hX, Tree.keyCount_fill]
      rfl
    have hXsized : X.SizedBelow (NodeSize cfg) := by
      rw [hX, Tree.sizedBelow_fill]
      refine ⟨hl, hC.2.1.1, ?_⟩
      simpa using ⟨hr, by simpa using hC.2.1.2⟩
    have hnode := insertIntoInternalNode_runs hv hpX hexpanded hrid hkeys hcount hC.1 hXsized hC.2.2
    rw [hXid] at hnode
    cases hup : searchPath up with
    | nil =>
      rw [hup] at hnode
      apply Fallible.Runs.bind hnode
      intro result s' hpost
      cases result with
      | none => exact of_ok rfl hpost
      | some p =>
        obtain ⟨l', r', -, -, -, -, -, -, htop, -⟩ := hpost
        rw [searchPath_eq_nil hup] at htop
        cases htop
    | cons link path =>
      rw [hup] at hnode
      apply Fallible.Runs.bind hnode
      intro result s' hpost
      cases result with
      | none => exact of_ok rfl hpost
      | some p =>
        obtain ⟨l', r', hl', hr', hk', hlsz, hrsz, hflat', -, hs'⟩ := hpost
        have hp' : Pending cfg s' m E up l'.rootId (l'.cells false + r'.cells false)
            (l'.flat ++ .separator p.1 :: r'.flat) := by
          rw [hflat', hl']
          exact ⟨hs', hp.root_eq, hp.height_eq, hpX.shows⟩
        have hrec := ih hup hp' hk' hlsz hrsz hC.2.2
        rw [hr'] at hrec
        exact hrec

end Internal

section Leaf

variable {C : IndexCtx 0 H} {id next rightPage : ℕ} {aes es x y : List LeafEntry}

theorem writeSplitLeaves_spec {a b : View Value LeafEntry}
    (hs : Holds cfg s m ({(id, a)} + ({(rightPage, b)} + M))) (hheader : HeaderOk header)
    (hroot : header.isRoot = false) (hnext : header.nextLeafPageId = next) (hx : EntriesOk cfg x)
    (hy : EntriesOk cfg y) : ∃ s', writeSplitLeaves id rightPage header x y s = (.ok (), s') ∧
      Holds cfg s' m (M + ({(id, .leaf false rightPage x)} + {(rightPage, .leaf false next y)})) := by
  have hlt : rightPage < 2 ^ 63 := hs.id_lt (mem_second (rightPage, b) _ _)
  have hheader' : HeaderOk { header with nextLeafPageId := rightPage } :=
    ⟨hheader.parent_lt, hlt.trans (by decide)⟩
  obtain ⟨s₁, hwrite₁, hs₁⟩ := hs.writeLeaf hheader' hx
  obtain ⟨s₂, hwrite₂, hs₂⟩ := (hs₁.cast (add_left_comm _ _ _)).writeLeaf hheader hy
  refine ⟨s₂, (bind_ok hwrite₁).trans hwrite₂, ?_⟩
  apply hs₂.cast
  rw [hroot, hnext]
  abel

section

variable (hv : cfg.Valid)
  (hp : Pending cfg s m E C id {(id, .leaf C.isTop next aes)} (.start id next :: es.map .entry))
  (hes : ∀ e ∈ es, EntryOk cfg e)
include hv hp hes

theorem splitLeaf_runs (hcount : es.length = maxKeysPerNode cfg + 1) (hC : SizedCtx cfg C) :
    Fallible.Runs OutOfPages (splitLeaf id (searchPath C) es) s fun _ s' => Stores cfg s' E := by
  have hdeg := hv.degree
  have hs := hp.holds
  have hshows := hp.shows
  rw [add_comm] at hs
  obtain ⟨header, hread, -, hheader, -, hnext⟩ := hs.readLeaf (self_mem _ _)
  have hlength := hcount
  rw [maxKeysPerNode] at hlength
  obtain ⟨x, e, y, rfl, hx⟩ := Tree.exists_cut (l := es) (m := cfg.minDegree) (by omega)
  rw [List.length_append, List.length_cons] at hlength
  have hxsize : NodeSize cfg x.length := by
    simp only [NodeSize, minKeysPerNonRootNode, maxKeysPerNode]
    omega
  have hysize : NodeSize cfg (e :: y).length := by
    simp only [NodeSize, minKeysPerNonRootNode, maxKeysPerNode, List.length_cons]
    omega
  have hxok : EntriesOk cfg x :=
    EntriesOk.of_entries hv hxsize.2 fun e' he => hes e' (List.mem_append.mpr (.inl he))
  have hyok : EntriesOk cfg (e :: y) :=
    EntriesOk.of_entries hv hysize.2 fun e' he => hes e' (List.mem_append.mpr (.inr he))
  have htake : (x ++ e :: y).take cfg.minDegree = x := by
    rw [← hx, List.take_left]
  have hdrop : (x ++ e :: y).drop cfg.minDegree = e :: y := by
    rw [← hx, List.drop_left]
  have hxne : x ≠ [] := List.ne_nil_of_length_pos (by omega)
  have hsplit : ∀ rightPage, Shows LeafEntry.key m.firstLeafPageId invalidPageId E
      (C.before ++ (((leaf id rightPage x : IndexTree 0).flat ++
        .separator e.key :: (leaf rightPage next (e :: y) : IndexTree 0).flat) ++ C.after)) := by
    intro rightPage
    rw [List.map_append, List.map_cons, List.cons_append, List.append_assoc, List.cons_append]
      at hshows
    have hcut := hshows.split (j := rightPage)
    simpa [flat_leaf] using hcut
  unfold splitLeaf
  apply Fallible.Runs.read_bind
  rw [hs.cfg_eq, if_neg (by simpa using hcount)]
  apply after hread
  dsimp only
  rw [htake, hdrop, if_neg (by simpa using hxne)]
  apply Fallible.Runs.bind (hs.allocateNodePage hv.pageSize_pos)
  intro rightPage s₁ hs₁
  cases C with
  | top =>
    apply Fallible.Runs.bind (hs₁.allocateNodePage hv.pageSize_pos)
    intro rootPage s₂ hs₂
    have hrootPage : rootPage < 2 ^ 63 := hs₂.id_lt (self_mem _ _)
    have hheader' : HeaderOk { header with isRoot := false, parentPageId := rootPage } :=
      ⟨hrootPage.trans (by decide), hheader.next_lt⟩
    have hs₂' : Holds cfg s₂ m
        ({(id, .leaf true next aes)} + ({(rightPage, .free)} + {(rootPage, .free)})) := by
      apply hs₂.cast
      rw [Ctx.cells, Ctx.isTop, add_zero]
      abel
    obtain ⟨s₃, hwrite, hs₃⟩ := writeSplitLeaves_spec hs₂' hheader' rfl hnext hxok hyok
    have hfirst : id = m.firstLeafPageId := by
      have hleads := hshows.leads
      simp only [Ctx.before, Ctx.after, List.nil_append, List.append_nil, links_start] at hleads
      exact hleads.1.symm
    obtain ⟨s₄, s₅, hroot₄, hsave, hstores⟩ := raiseRoot_spec
      (l := leaf id rightPage x) (r := leaf rightPage next (e :: y)) hv hs₃
      (hes e (by simp)).1 ⟨hxsize, trivial⟩ ⟨hysize, trivial⟩ hp.height_eq
      (by simpa [Ctx.before, Ctx.after] using hsplit rightPage)
      (f := fun m =>
        { m with
          rootPageId := rootPage
          firstLeafPageId := id
          treeHeight := (m.treeHeight + 1) % 2 ^ 64 }) (by rw [hfirst])
    apply after hwrite
    apply after hroot₄
    exact of_ok hsave hstores
  | frame pid left right up =>
    have hpid : pid < 2 ^ 63 := by
      apply hs.id_lt (c := (pid, _))
      rw [cells_frame, add_comm, add_assoc]
      exact self_mem _ _
    have hheader' : HeaderOk { header with isRoot := false, parentPageId := pid } :=
      ⟨hpid.trans (by decide), hheader.next_lt⟩
    obtain ⟨s₂, hwrite, hs₂⟩ := writeSplitLeaves_spec (hs₁.cast (add_left_comm _ _ _)) hheader' rfl
      hnext hxok hyok
    apply after hwrite
    exact insertIntoInternal_runs (C := Ctx.frame pid left right up) (l := leaf id rightPage x)
      (r := leaf rightPage next (e :: y)) hv rfl
      ⟨hs₂, hp.root_eq, hp.height_eq, hsplit rightPage⟩ (hes e (by simp)).1 ⟨hxsize, trivial⟩
      ⟨hysize, trivial⟩ hC

/-- A leaf with one entry too many is relieved by its right sibling, or nothing happens. -/
theorem redistributeLeaf_insert (hC : SizedCtx cfg C) :
    redistributeLeafWithRightSibling id (searchPath C) es s = (.ok false, s) ∨
      ∃ s', redistributeLeafWithRightSibling id (searchPath C) es s = (.ok true, s') ∧
        Stores cfg s' E := by
  cases C with
  | top => exact .inl rfl
  | frame pid left right up =>
    cases right with
    | nil => exact .inl ((redistribute_no_sibling hp.holds).1 es)
    | cons p right =>
      obtain ⟨k, S⟩ := p
      obtain ⟨bid, bnext, bes, rfl⟩ := S.exists_leaf
      rcases redistributeLeaf_stores hv rfl hp hes (Ctx.sized_right_iff.mp hC).2 with
        hstores | hfalse
      · exact .inr hstores
      · exact .inl hfalse.1

end

theorem insertIntoLeaf_runs (hv : cfg.Valid) {entries : List LeafEntry} {rid : ℕ}
    (hst : Stored cfg s m E (C.plug (leaf id next entries))) (hrouted : C.Routed key)
    (hkey : KeyOk cfg key) (hrid : rid < 2 ^ 64) (habsent : lookup LeafEntry.key E key = none) :
    Fallible.Runs OutOfPages (insertIntoLeaf id (searchPath C) key rid) s fun _ s' =>
      ∃ E', Stores cfg s' E' ∧ lookup LeafEntry.key E' =
        Function.update (lookup LeafEntry.key E) key (some ⟨key, rid⟩) := by
  obtain ⟨⟨hs, hroot, hheight, hshows⟩, hC, hcount, -⟩ := hst.unplug
  rw [flat_leaf] at hshows
  have hs₀ : Holds cfg s m ({(id, .leaf C.isTop next entries)} + C.cells id) := by
    rw [add_comm]
    exact hs
  obtain ⟨header, hread, hentries, hheader⟩ := hs₀.readLeaf (self_mem _ _)
  obtain ⟨x, y, hxy, hpos, hx, hy, -⟩ := exists_entryPosition hshows.leaf_sorted key
  rw [lookup_of_routed hrouted hshows] at habsent
  have hy' : ∀ e ∈ y, key < e.key := by
    intro e he
    have hne := List.find?_eq_none.mp habsent e (by rw [hxy]; simp [he])
    exact lt_of_le_of_ne (hy e he) (by simpa [eq_comm] using hne)
  rw [hxy] at hshows
  obtain ⟨E', hshows', hlookup⟩ :=
    hshows.insert_routed (e := ⟨key, rid⟩) hrouted hx hy'
  have hok : ∀ e ∈ x ++ ⟨key, rid⟩ :: y, EntryOk cfg e := by
    intro e he
    rcases List.mem_append.mp he with he | he
    · exact hentries.entry_ok e (by rw [hxy]; simp [he])
    · rcases List.mem_cons.mp he with rfl | he
      · exact ⟨hkey, hrid⟩
      · exact hentries.entry_ok e (by rw [hxy]; simp [he])
  have hexpanded : entries.insertIdx (findEntryPosition entries key) ⟨key, rid⟩ =
      x ++ ⟨key, rid⟩ :: y := by
    rw [hpos, hxy, insertIdx_append _ _ _ rfl]
  have hlength : (x ++ ⟨key, rid⟩ :: y).length = entries.length + 1 := by
    rw [hxy]
    simp only [List.length_append, List.length_cons]
    omega
  have hp : Pending cfg s m E' C id {(id, .leaf C.isTop next entries)} _ :=
    ⟨hs, hroot, hheight, hshows'⟩
  unfold insertIntoLeaf
  apply Fallible.Runs.read_bind
  apply after hread
  dsimp only
  rw [hexpanded, hs.cfg_eq, hlength]
  by_cases hfits : entries.length + 1 ≤ maxKeysPerNode cfg
  · rw [if_pos hfits]
    obtain ⟨C', s₁, s₂, hwrite, hrefresh, hshape, hlaid⟩ := rewriteLeaf_spec hv hp hC hheader hok
      (hlength.trans_le hfits) (findEntryPosition entries key = 0) (by simp)
    apply after hwrite
    apply of_ok hrefresh
    refine ⟨E', ?_, hlookup⟩
    apply hlaid.stores (hshape.sized hC) _ trivial
    rw [AllowedIn, Ctx.Allows, hshape.isTop_eq, Tree.keyCount_leaf, hlength]
    exact hcount.succ hfits
  · rw [if_neg hfits]
    have hfull : (x ++ ⟨key, rid⟩ :: y).length = maxKeysPerNode cfg + 1 := by
      have hle := hcount.le
      rw [Tree.keyCount_leaf] at hle
      omega
    rcases redistributeLeaf_insert hv hp hok hC with
      hrun | ⟨s', hrun, hstores⟩
    · apply after hrun
      apply (splitLeaf_runs hv hp hok hfull hC).mono
      exact fun _ s' hstores => ⟨E', hstores, hlookup⟩
    · apply after hrun
      exact of_ok rfl ⟨E', hstores, hlookup⟩

end Leaf

/-- The open tree holds the entries `E`. -/
inductive Represents (cfg : Config) (s : BStarTree) : List LeafEntry → Prop
  | empty {m : TreeMetadata} (holds : Holds cfg s m 0) (root_eq : m.rootPageId = invalidPageId)
      (first_eq : m.firstLeafPageId = invalidPageId) (height_eq : m.treeHeight = 0) :
      Represents cfg s []
  | tree {m : TreeMetadata} {H : ℕ} {T : IndexTree H} {E : List LeafEntry}
      (stored : Stored cfg s m E T) : Represents cfg s E

theorem Stores.represents (hst : Stores cfg s E) : Represents cfg s E := by
  obtain ⟨m, H, T, hstored⟩ := hst
  exact .tree hstored

theorem Stored.root_ne {T : IndexTree H} (hst : Stored cfg s m E T) :
    s.metadata.rootPageId ≠ invalidPageId := by
  have hlt : T.rootId < 2 ^ 63 := hst.holds.id_lt (Tree.rootId_mem_cells true T)
  rw [hst.holds.metadata_eq, hst.root_eq, invalidPageId]
  omega

theorem validateKeyType_ok (hv : cfg.Valid) (hs : Holds cfg s m M)
    (htype : key.type = cfg.keyType)
    (hlength : (KeyEncoder.encode key).length ≤ cfg.maxKeyPayloadBytes) :
    validateKeyType key s = (.ok (), s) := by
  have hnull : key.isNull = false := by
    have hne := hv.keyType_ne
    rw [← htype] at hne
    cases key <;> simp_all [Value.isNull, Value.type]
  unfold validateKeyType
  rw [read_bind, hs.cfg_eq, if_neg (by simp [hnull]),
    if_neg (by simpa using htype), if_neg (Nat.not_lt.mpr hlength)]
  rfl

theorem KeyOk.validate (hv : cfg.Valid) (hs : Holds cfg s m M) (hkey : KeyOk cfg key) :
    validateKeyType key s = (.ok (), s) :=
  validateKeyType_ok hv hs hkey.type_eq hkey.length_le

section Insert

variable {key : Value} {rid rootPage : ℕ}

section

variable (hv : cfg.Valid) (hs : Holds cfg s m ({(rootPage, .free)} + 0)) (hkey : KeyOk cfg key)
  (hrid : rid < 2 ^ 64)
include hv hs hkey hrid

theorem writeFirstLeaf_stored :
    ∃ s' m', writeFirstLeaf rootPage key rid s = (.ok (), s') ∧
      Stored cfg s' m' [⟨key, rid⟩] (leaf rootPage invalidPageId [⟨key, rid⟩]) := by
  have hdeg := hv.degree
  have hone : 1 ≤ maxKeysPerNode cfg := by
    rw [maxKeysPerNode]
    omega
  have hlt : rootPage < 2 ^ 63 := hs.id_lt (self_mem _ _)
  have hheader : HeaderOk ⟨.kLeaf, 0, invalidPageId, invalidPageId, true⟩ :=
    ⟨invalidPageId_lt, invalidPageId_lt⟩
  have hentries : EntriesOk cfg [⟨key, rid⟩] :=
    EntriesOk.of_entries hv hone (by simpa using ⟨hkey, hrid⟩)
  obtain ⟨s₁, hwrite, hs₁⟩ := hs.writeLeaf hheader hentries
  obtain ⟨f, hf⟩ : ∃ f : TreeMetadata → TreeMetadata, f = fun m =>
    { m with rootPageId := rootPage, firstLeafPageId := rootPage, treeHeight := 1 } := ⟨_, rfl⟩
  have hroot : (f m).rootPageId = rootPage ∧ (f m).firstLeafPageId = rootPage ∧
      (f m).treeHeight = 1 := by
    rw [hf]
    exact ⟨rfl, rfl, rfl⟩
  have hmeta : MetaOk cfg (f m) := by
    have hok := hs.metadata_ok
    have hlt64 : rootPage < 2 ^ 64 := hlt.trans (by decide)
    rw [hf]
    exact ⟨hlt64, hlt64, Nat.one_lt_two_pow (by decide), hok.degree_eq, hok.payload_eq⟩
  obtain ⟨s₂, hsave, hs₂⟩ := hs₁.saveMetadata hmeta hv.metadata_fits
  rw [hf] at hsave
  refine ⟨s₂, f m, (bind_ok hwrite).trans hsave, ?_, hroot.1, hroot.2.2, ?_, ?_⟩
  · simpa [Tree.cells_leaf] using hs₂
  · exact ⟨⟨le_refl 1, hone⟩, trivial⟩
  · constructor
    · simp [Sorted, flat_leaf]
    · simp [flat_leaf]
    · simp [flat_leaf, Leads, hroot.2.1]

theorem writeFirstLeaf_spec :
    ∃ s', writeFirstLeaf rootPage key rid s = (.ok (), s') ∧ Stores cfg s' [⟨key, rid⟩] := by
  obtain ⟨s', m', hwrite, hstored⟩ := writeFirstLeaf_stored hv hs hkey hrid
  exact ⟨s', hwrite, m', 0, _, hstored⟩

end

theorem insertFirst_runs (hv : cfg.Valid) (hs : Holds cfg s m 0) (hkey : KeyOk cfg key)
    (hrid : rid < 2 ^ 64) :
    Fallible.Runs OutOfPages (insertFirst key rid) s fun _ s' => Stores cfg s' [⟨key, rid⟩] := by
  unfold insertFirst
  apply Fallible.Runs.bind (hs.allocateNodePage hv.pageSize_pos)
  intro rootPage s₁ hs₁
  obtain ⟨s', hwrite, hstores⟩ := writeFirstLeaf_spec hv hs₁ hkey hrid
  exact of_ok hwrite hstores

theorem insert_runs (hv : cfg.Valid) (hrep : Represents cfg s E) (hkey : KeyOk cfg key)
    (hrid : rid < 2 ^ 64) (habsent : lookup LeafEntry.key E key = none) :
    Fallible.Runs OutOfPages (insert key rid) s fun _ s' =>
      ∃ E', Represents cfg s' E' ∧ lookup LeafEntry.key E' =
        Function.update (lookup LeafEntry.key E) key (some ⟨key, rid⟩) := by
  unfold insert
  apply Fallible.Runs.read_bind
  cases hrep with
  | empty hs hroot hfirst hheight =>
    rw [hs.isOpen]
    apply after (hkey.validate hv hs)
    rw [hs.metadata_eq, if_pos hroot]
    apply (insertFirst_runs hv hs hkey hrid).mono
    intro _ s' hstores
    refine ⟨_, hstores.represents, ?_⟩
    exact lookup_insert (x := []) (y := []) (by simp)
  | tree hst =>
    obtain ⟨C, id, next, entries, hT, hrouted, hfind⟩ := hst.findPathToLeaf key
    rw [habsent] at hfind
    rw [hst.holds.isOpen]
    apply after (hkey.validate hv hst.holds)
    rw [if_neg hst.root_ne]
    apply after hfind
    rw [← hT] at hst
    apply (insertIntoLeaf_runs hv hst hrouted hkey hrid habsent).mono
    intro _ s' hpost
    obtain ⟨E', hstores, hlookup⟩ := hpost
    exact ⟨E', hstores.represents, hlookup⟩

theorem insert_present (hv : cfg.Valid) (hrep : Represents cfg s E) (hkey : KeyOk cfg key)
    {e : LeafEntry} (hpresent : lookup LeafEntry.key E key = some e) :
    insert key rid s = (.error (.status keyAlreadyExists), s) := by
  cases hrep with
  | empty hs hroot hfirst hheight => cases hpresent
  | tree hst =>
    obtain ⟨C, id, next, entries, -, -, hfind⟩ := hst.findPathToLeaf key
    unfold insert
    rw [read_bind, hst.holds.isOpen, if_neg (by simp),
      bind_ok (hkey.validate hv hst.holds), if_neg hst.root_ne,
      bind_ok hfind, hpresent]
    rfl

theorem find_eq (hrep : Represents cfg s E) (hvalid : validateKeyType key s = (.ok (), s)) :
    find key s = (.ok ((lookup LeafEntry.key E key).map LeafEntry.rid), s) := by
  unfold find
  rw [read_bind]
  cases hrep with
  | empty hs hroot hfirst hheight =>
    rw [hs.isOpen, if_neg (by simp), bind_ok hvalid, hs.metadata_eq, if_pos hroot]
    rfl
  | tree hst =>
    obtain ⟨C, id, next, entries, -, -, hfind⟩ := hst.findPathToLeaf key
    rw [hst.holds.isOpen, if_neg (by simp), bind_ok hvalid, if_neg hst.root_ne,
      bind_ok hfind]
    rfl

theorem Represents.holds (hrep : Represents cfg s E) : ∃ m M, Holds cfg s m M := by
  cases hrep with
  | empty hs hroot hfirst hheight => exact ⟨_, _, hs⟩
  | tree hst => exact ⟨_, _, hst.holds⟩

end Insert

end CourseDb.BStarTree

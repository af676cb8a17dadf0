import CourseDb.Index.TreeMap
import CourseDb.Lib.BTree.Shape

/-! # The shape of the stored tree

The pages that are reached from the root page form a balanced, filled and ordered
tree whose leaves are linked in order. This is said by parsing the pages of the
file, without reference to the tree that they were written for.
-/

namespace CourseDb.BStarTree

open Fallible (read_bind bind_ok)
open BTree Codec

variable {cfg : Config} {s : BStarTree} {m : TreeMetadata} {M : NodeCells} {H : ℕ}
  {E : List LeafEntry} {v : View Value LeafEntry} {T : IndexTree H}

def Node.view : Node → View Value LeafEntry
  | .leaf header entries => .leaf header.isRoot header.nextLeafPageId entries
  | .internal header node => .branch header.isRoot node.separatorKeys node.childPageIds

/-- The node in a page of the file, if the page parses. -/
def pageView (s : BStarTree) (id : ℕ) : Option (View Value LeafEntry) :=
  s.pageManager.pages[id]?.bind fun page => (parseNode s.cfg page).toOption.map Node.view

/-- The metadata describe an empty tree, or the root page of a tree of the right shape. -/
def Structured (s : BStarTree) : Prop :=
  s.metadata.rootPageId = invalidPageId ∧ s.metadata.firstLeafPageId = invalidPageId ∧
      s.metadata.treeHeight = 0 ∨
    s.metadata.rootPageId ≠ invalidPageId ∧
      Shape (pageView s) LeafEntry.key (minKeysPerNonRootNode s.cfg) (maxKeysPerNode s.cfg)
        s.metadata.rootPageId s.metadata.firstLeafPageId invalidPageId s.metadata.treeHeight

theorem Encodes.view_eq {page : ByteString} (h : Encodes cfg page v) (hv : v ≠ .free) :
    (parseNode cfg page).toOption.map Node.view = some v := by
  cases h with
  | leaf hok hentries => rw [parseNode_leafPage hok hentries]; rfl
  | branch hok hnode => rw [parseNode_internalPage hok hnode]; rfl
  | free => exact absurd rfl hv

theorem Holds.pageView_eq (hs : Holds cfg s m M) {id : ℕ} (hmem : (id, v) ∈ M) (hv : v ≠ .free) :
    pageView s id = some v := by
  obtain ⟨page, hpage, henc⟩ := hs.encodes _ hmem
  rw [pageView, hpage, hs.cfg_eq]
  exact henc.view_eq hv

theorem Holds.agrees (hs : Holds cfg s m (T.cells true)) : Agrees (pageView s) (T.cells true) :=
  fun _ hc => hs.pageView_eq hc (T.ne_free_of_mem_cells true hc)

theorem Stored.shape (hv : cfg.Valid) (hst : Stored cfg s m E T) :
    Shape (pageView s) LeafEntry.key (minKeysPerNonRootNode cfg) (maxKeysPerNode cfg) T.rootId
      m.firstLeafPageId invalidPageId (H + 1) := by
  have hlow : 1 ≤ minKeysPerNonRootNode cfg := by
    have hdeg := hv.degree
    rw [minKeysPerNonRootNode]
    omega
  exact shape_of_tree hlow (fun n hn => hn.1) hst.holds.agrees hst.holds.nodup hst.sized hst.shows

theorem Represents.structured (hv : cfg.Valid) (hrep : Represents cfg s E) : Structured s := by
  cases hrep with
  | empty hs hroot hfirst hheight =>
    rw [Structured, hs.metadata_eq]
    exact .inl ⟨hroot, hfirst, hheight⟩
  | tree hst =>
    have hshape := hst.shape hv
    refine .inr ⟨hst.root_ne, ?_⟩
    rw [hst.holds.metadata_eq, hst.holds.cfg_eq, hst.root_eq, hst.height_eq]
    exact hshape

/-- The key of the call is accepted and short, and the device works. -/
def Usable (cfg : Config) (s : BStarTree) (op : Op) : Prop :=
  Assumption cfg (fun _ => none) op (step s op).1

/-- Every state that an index on a new file reaches is a tree of the right shape, as
long as its keys are short. -/
theorem bstarTree_structured {maxVariable : ℕ} {s₀ : BStarTree} (hfresh : Fresh cfg maxVariable s₀)
    (ops : List Op) (hops : Along step (Usable cfg) s₀ ops) :
    Structured (finalState step s₀ ops) := by
  obtain ⟨hv, hsize, rfl⟩ := hfresh.initial
  have hinitial : ∃ a, Refines cfg (initial cfg) a := ⟨_, [], initial_represents cfg, rfl⟩
  obtain ⟨a, E, hrep, -⟩ := Along.invariant (I := fun s => ∃ a, Refines cfg s a)
    (fun s op ⟨a, ha⟩ hop => by
      obtain ⟨a', -, ha'⟩ := step_refines hv ha hsize op hop
      exact ⟨a', ha'⟩) hinitial hops
  exact hrep.structured hv

theorem splitAndMerge_usable : Along step (Usable smallConfig) (initial smallConfig) splitAndMerge := by
  refine ⟨?_, ?_, ?_, ?_, ⟨by decide +kernel, trivial⟩, ?_, ?_, ?_, trivial⟩
  iterate 4 exact ⟨by decide +kernel, rfl, by unfold Short; decide, by decide⟩
  iterate 3 exact ⟨by decide +kernel, rfl, by unfold Short; decide⟩

theorem bstarTree_structured_int :
    Structured (finalState step (initial smallConfig) splitAndMerge) :=
  bstarTree_structured smallConfig_fresh splitAndMerge splitAndMerge_usable

section LongKey

variable {n rootPage : ℕ}

theorem zeros_lt (hpos : n ≠ 0) : zeros 0 < zeros n := by
  rw [← Value.less_iff]
  obtain ⟨k, rfl⟩ := Nat.exists_eq_succ_of_ne_zero hpos
  simp [zeros, Value.less, List.replicate_succ]

theorem findEntryPosition_zeros (hpos : n ≠ 0) :
    findEntryPosition [⟨zeros 0, 0⟩] (zeros n) = 1 := by
  have hless : (zeros 0).less (zeros n) = true := (Value.less_iff _ _).mpr (zeros_lt hpos)
  simp [findEntryPosition, hless]

/-- A key whose length is lost goes after the empty key, and comes back as the empty key. -/
theorem insert_zeros_again (h : LosesLength cfg n)
    (hst : Stored cfg s m [⟨zeros 0, 0⟩] (Tree.leaf rootPage invalidPageId [⟨zeros 0, 0⟩])) :
    ∃ s', insert (zeros n) 0 s = (.ok (), s') ∧
      Holds cfg s' m {(rootPage, .leaf true invalidPageId [⟨zeros 0, 0⟩, ⟨zeros 0, 0⟩])} := by
  have hs := hst.holds
  have hv := h.valid
  have hdeg := hv.degree
  have hmax : 3 ≤ maxKeysPerNode cfg := by
    rw [maxKeysPerNode]
    omega
  obtain ⟨C, id, next, entries, hplug, -, hfind⟩ := findPathToLeaf_eq (zeros n) hs hst.root_eq
  -- the only leaf is the root, and the key is not in it
  cases C with
  | frame id left right up => exact absurd up.height_le (by omega)
  | top =>
    obtain ⟨rfl, rfl, rfl⟩ : id = rootPage ∧ next = invalidPageId ∧ entries = [⟨zeros 0, 0⟩] := by
      cases hplug
      exact ⟨rfl, rfl, rfl⟩
    rw [findEntryPosition_zeros h.ne_zero] at hfind
    have hcells : Holds cfg s m ({(id, .leaf true invalidPageId [⟨zeros 0, 0⟩])} + 0) := by
      simpa [Tree.cells_leaf] using hs
    obtain ⟨header, hread, -, hok, hroot, hnext⟩ := hcells.readLeaf (self_mem _ _)
    have hentries : EntriesOk cfg [⟨zeros 0, 0⟩, ⟨zeros 0, 0⟩] :=
      EntriesOk.of_entries hv (by simp; omega) (by simp [EntryOk, h.empty_ok])
    obtain ⟨s', hwrite, hs'⟩ := hcells.writeLeaf hok hentries
    have hsize : nodeHeaderSize + ([(⟨zeros 0, 0⟩ : LeafEntry)].map fun e => bundleSize e.key).sum +
        12 + n ≤ cfg.pageSize := by
      have hfits := hv.fits
      have hle := h.le
      have hmul := Nat.mul_le_mul_right (12 + cfg.maxKeyPayloadBytes) hmax
      simp only [List.map_cons, List.map_nil, List.sum_cons, List.sum_nil, bundleSize,
        encode_zeros_length]
      omega
    have hsame := writeLeaf_zeros hs [⟨zeros 0, 0⟩] h.wraps hsize id header
    refine ⟨s', ?_, by simpa [hroot, hnext] using hs'⟩
    have hleaf : ∀ path, insertIntoLeaf id path (zeros n) 0 s = (.ok (), s') := by
      intro path
      unfold insertIntoLeaf
      rw [read_bind, bind_ok hread]
      simp only [findEntryPosition_zeros h.ne_zero]
      rw [hs.cfg_eq, if_pos (by simp; omega)]
      exact (bind_ok (hsame.trans hwrite)).trans rfl
    have habsent : ∃ path, findPathToLeaf (zeros n) s = (.ok (path, id, none), s) :=
      ⟨_, by simpa using hfind⟩
    obtain ⟨path, habsent⟩ := habsent
    unfold insert
    rw [read_bind, hs.isOpen, if_neg (by simp),
      bind_ok (h.validate hs), if_neg hst.root_ne, bind_ok habsent]
    exact hleaf path

/-- Two keys whose lengths are lost are one key twice. -/
theorem not_structured_of_twice {key : Value} {rid rid' : ℕ}
    (hs : Holds cfg s m {(rootPage, .leaf true invalidPageId [⟨key, rid⟩, ⟨key, rid'⟩])})
    (hroot : m.rootPageId = rootPage) : ¬ Structured s := by
  have hlt : rootPage < 2 ^ 63 := hs.id_lt (Multiset.mem_singleton_self _)
  have hview := hs.pageView_eq (Multiset.mem_singleton_self _) (by simp)
  rw [Structured, hs.metadata_eq, hroot]
  rintro (⟨hinvalid, -, -⟩ | ⟨-, hshape⟩)
  · rw [invalidPageId] at hinvalid
    omega
  · have hincreasing := hshape.increasing .root hview
    simp [View.keys] at hincreasing

theorem zeros_twice (h : LosesLength cfg n) :
    (trace step (initial cfg) [.insert (zeros n) 0, .insert (zeros n) 0]).map Prod.snd =
        [.ok, .ok] ∧
      ¬ Structured (finalState step (initial cfg) [.insert (zeros n) 0, .insert (zeros n) 0]) := by
  obtain ⟨s₁, m₁, rootPage, hinsert, hstored⟩ := insert_zeros h
  obtain ⟨s₂, hagain, hs₂⟩ := insert_zeros_again h hstored
  have hnot := not_structured_of_twice hs₂ hstored.root_eq
  simp only [trace, finalState, step, hinsert, hagain, Prod.map, id, answer, List.map_cons,
    List.map_nil]
  exact ⟨trivial, hnot⟩

theorem bstarTree_repeats_long_key :
    Fresh longKeyConfig (2 ^ 32) (initial longKeyConfig) ∧
    Accepted longKeyConfig (zeros (2 ^ 32)) ∧
    (trace step (initial longKeyConfig)
        [.insert (zeros (2 ^ 32)) 0, .insert (zeros (2 ^ 32)) 0]).map Prod.snd = [.ok, .ok] ∧
    ¬ Structured (finalState step (initial longKeyConfig)
        [.insert (zeros (2 ^ 32)) 0, .insert (zeros (2 ^ 32)) 0]) :=
  ⟨longKeyConfig_fresh, (zeros_lost longKeyConfig_losesLength).1,
    zeros_twice longKeyConfig_losesLength⟩

end LongKey

end CourseDb.BStarTree

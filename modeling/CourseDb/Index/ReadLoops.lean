import CourseDb.Lib.Chains
import CourseDb.Index.NodeLinks

/-! # Reading a tree from any file

The searches follow page numbers that they read from the file. They return
unless the numbers lead them round to a page that they have read before.
-/

namespace CourseDb.BStarTree

open Fallible (read_bind bind_ok bind_eq_ok bind_error bind_apply)
open Chains

variable {cfg : Config} {s s' : BStarTree} {key : Value} {range : KeyRange} {id fuel : ℕ}

section Returns

variable {α β : Type} {x : Action α} {f : α → Action β}

/-- The call comes back, with a result or with a status. -/
def Returns (x : Action α) (s : BStarTree) : Prop := (x s).1 ≠ .error .noTermination

theorem Returns.bind (hx : Returns x s) (hf : ∀ a s', x s = (.ok a, s') → Returns (f a) s') :
    Returns (x >>= f) s := by
  unfold Returns at hx ⊢
  rcases hxs : x s with ⟨e | a, s'⟩
  · rw [bind_error hxs]
    rw [hxs] at hx
    simpa using hx
  · rw [bind_ok hxs]
    exact hf a s' hxs

/-- After a call that returns and leaves the tree as it is. -/
theorem Returns.bind_iff (hx : Returns x s) (hkeeps : Fallible.Within Eq x) :
    Returns (x >>= f) s ↔ ∀ a, (x s).1 = .ok a → Returns (f a) s := by
  have hs := hkeeps s
  unfold Returns at hx ⊢
  rcases hxs : x s with ⟨e | a, s'⟩
  · rw [hxs] at hx
    rw [bind_error hxs]
    simpa using hx
  · rw [hxs] at hs
    obtain rfl : s = s' := hs
    rw [bind_ok hxs]
    simp

theorem Returns.of_bind (h : Returns (x >>= f) s) : Returns x s := by
  intro hfails
  have hx : x s = (.error .noTermination, (x s).2) := Prod.ext hfails rfl
  rw [Returns, bind_error hx] at h
  exact h rfl

theorem returns_map_iff (g : α → β) : Returns (x >>= fun a => pure (g a)) s ↔ Returns x s := by
  rw [Returns, Returns, bind_apply]
  rcases x s with ⟨e | a, s'⟩ <;> simp

theorem parsed_returns (r : Except Status α) : Returns (parsed r) s := by
  unfold Returns
  cases r <;> simp [parsed, Except.mapError]

theorem readPage_returns (id : ℕ) : Returns (readPage id) s := by
  unfold Returns readPage onPages
  cases (PageManager.readPage id s.pageManager).1 <;> simp [Except.mapError]

theorem readParsed_returns {α : Type} (parse : Config → ByteString → Except Status α) (id : ℕ) :
    Returns (readParsed parse id) s :=
  (readPage_returns id).bind fun _ _ _ => parsed_returns _

end Returns

theorem readPage_within (id : ℕ) : Fallible.Within Eq (readPage id) := by
  intro s
  unfold readPage onPages PageManager.readPage
  split_ifs with hopen
  · rfl
  · cases s.pageManager.pages[id]? <;> rfl

theorem readParsed_within {α : Type} (parse : Config → ByteString → Except Status α) (id : ℕ) :
    Fallible.Within Eq (readParsed parse id) :=
  (readPage_within id).bind fun _ => Fallible.Within.read.bind fun _ => Fallible.Within.ofExcept _

theorem readNode_apply (id : ℕ) (s : BStarTree) : readNode id s = ((readNode id s).1, s) :=
  Prod.ext rfl (readParsed_within _ id s).symm

theorem readLeaf_apply (id : ℕ) (s : BStarTree) : readLeaf id s = ((readLeaf id s).1, s) :=
  Prod.ext rfl (readParsed_within _ id s).symm

/-- The page to which the descent for a key goes on from a page. -/
def childToward (s : BStarTree) (key : Value) (id : ℕ) : Option ℕ :=
  match (readNode id s).1 with
  | .ok (.internal _ node) =>
    some (node.childPageIds.getD (chooseChildIndex node key) invalidPageId)
  | _ => none

/-- The leaf with which a search in a range goes on after a leaf. -/
def nextLeaf (s : BStarTree) (range : KeyRange) (id : ℕ) : Option ℕ :=
  if id = invalidPageId then
    none
  else
    match (readLeaf id s).1 with
    | .ok (header, entries) =>
      if (collectEntries range entries).2 then some header.nextLeafPageId else none
    | .error _ => none

/-- The descent for a key comes round to a page again. -/
def DescentLoops (s : BStarTree) (key : Value) : Prop :=
  Loops (childToward s key) s.metadata.rootPageId

/-- A search in a range starts with this leaf. -/
def StartsAt (s : BStarTree) (range : KeyRange) (leaf : ℕ) : Prop :=
  match range.low with
  | none => leaf = s.metadata.firstLeafPageId
  | some low =>
    Reaches (childToward s low) s.metadata.rootPageId leaf ∧ childToward s low leaf = none

/-- The links between the leaves of a range come round to a leaf again. -/
def ScanLoops (s : BStarTree) (range : KeyRange) : Prop :=
  ∃ leaf, StartsAt s range leaf ∧ Loops (nextLeaf s range) leaf

theorem childToward_mem (h : (childToward s key id).isSome) :
    id ∈ Finset.range s.pageManager.pages.length := by
  unfold childToward at h
  split at h
  · rename_i header node hnode
    have hread := readNode_apply id s
    rw [hnode] at hread
    obtain ⟨-, page, -, hsome, -⟩ := readParsed_eq_ok hread
    exact Finset.mem_range.mpr (List.getElem?_eq_some_iff.mp hsome).1
  · cases h

theorem nextLeaf_mem (h : (nextLeaf s range id).isSome) :
    id ∈ Finset.range s.pageManager.pages.length := by
  unfold nextLeaf at h
  split_ifs at h with hend
  · cases h
  split at h
  · rename_i header entries hleaf
    have hread := readLeaf_apply id s
    rw [hleaf] at hread
    obtain ⟨-, page, -, hsome, -⟩ := readParsed_eq_ok hread
    exact Finset.mem_range.mpr (List.getElem?_eq_some_iff.mp hsome).1
  · cases h

theorem nextLeaf_of_readNode_error {e : TreeError} (h : (readNode id s).1 = .error e) :
    nextLeaf s range id = none := by
  unfold nextLeaf
  split_ifs
  · rfl
  split
  · rename_i header entries hleaf
    have hread := readLeaf_apply id s
    rw [hleaf] at hread
    obtain ⟨-, page, hpage, -, hparse⟩ := readParsed_eq_ok hread
    obtain ⟨hheader, htype⟩ := parseLeafPage_header hparse
    have hnode : parseNode s.cfg page = .ok (.leaf header entries) := by
      unfold parseNode
      rw [hheader]
      simp only [bind, Except.bind, htype, hparse]
      rfl
    rw [readNode, readParsed, bind_ok hpage, read_bind, hnode] at h
    cases h
  · rfl

section Loops

/-- The loop of `FindPathToLeaf` goes on for as many rounds as there are links to follow. -/
theorem descend_returns_iff (path : List SearchPathEntry) :
    Returns (descend key fuel id path) s ↔ ¬ (walk (childToward s key) fuel id).isSome := by
  induction fuel generalizing id path with
  | zero => simp [Returns, descend, walk]
  | succ fuel ih =>
    rcases hnode : (readNode id s).1 with e | ⟨header, entries⟩ | ⟨header, node⟩
    all_goals
      have hread := readNode_apply id s
      rw [hnode] at hread
    · have hne : Returns (readNode id) s := readParsed_returns _ id
      simp only [Returns, descend, bind_error hread, walk, childToward, hnode]
      simpa [Returns, hnode] using hne
    · simp [Returns, descend, bind_ok hread, walk, childToward, hnode]
    · simp only [Returns, descend, bind_ok hread, walk, childToward, hnode]
      exact ih _

/-- A descent that returns has come to the end of the links: to a leaf, or to a page that is
not a node. -/
theorem descend_ends {path : List SearchPathEntry} (h : Returns (descend key fuel id path) s) :
    ∃ last, Reaches (childToward s key) id last ∧ childToward s key last = none ∧
      ((∃ path' found, descend key fuel id path s = (.ok (path', last, found), s)) ∨
        ∃ e, (readNode last s).1 = .error e ∧ descend key fuel id path s = (.error e, s)) := by
  induction fuel generalizing id path with
  | zero => exact absurd rfl h
  | succ fuel ih =>
    rcases hnode : (readNode id s).1 with e | ⟨header, entries⟩ | ⟨header, node⟩
    all_goals
      have hread := readNode_apply id s
      rw [hnode] at hread
    · refine ⟨id, .refl id, by simp only [childToward, hnode], .inr ⟨e, hnode, ?_⟩⟩
      rw [descend, bind_error hread]
    · let existing := entries[findEntryPosition entries key]?.filter fun entry => entry.key = key
      refine ⟨id, .refl id, by simp only [childToward, hnode],
        .inl ⟨path, existing.map LeafEntry.rid, ?_⟩⟩
      rw [descend, bind_ok hread]
      rfl
    · have hchild : childToward s key id =
          some (node.childPageIds.getD (chooseChildIndex node key) invalidPageId) := by
        simp only [childToward, hnode]
      rw [Returns, descend, bind_ok hread] at h
      obtain ⟨last, hlast, hend, hresult⟩ := ih h
      refine ⟨last, hlast.step hchild, hend, ?_⟩
      rw [descend, bind_ok hread]
      exact hresult

/-- The loop of `RangeSearch` goes on for as many rounds as there are leaves to follow. -/
theorem collectLeaves_returns_iff :
    Returns (collectLeaves range fuel id) s ↔ ¬ (walk (nextLeaf s range) fuel id).isSome := by
  induction fuel generalizing id with
  | zero => simp [Returns, collectLeaves, walk]
  | succ fuel ih =>
    by_cases hend : id = invalidPageId
    · simp [Returns, collectLeaves, hend, walk, nextLeaf]
    rcases hleaf : (readLeaf id s).1 with e | ⟨header, entries⟩
    all_goals
      have hread := readLeaf_apply id s
      rw [hleaf] at hread
    · have hne : Returns (readLeaf id) s := readParsed_returns _ id
      simp only [Returns, collectLeaves, if_neg hend, bind_error hread, walk, nextLeaf,
        hleaf]
      simpa [Returns, hleaf] using hne
    · by_cases hmore : (collectEntries range entries).2
      · simp only [Returns, collectLeaves, if_neg hend, bind_ok hread, walk, nextLeaf,
          hleaf, hmore, if_true]
        rw [Option.bind_some, ← ih]
        exact returns_map_iff _
      · simp [Returns, collectLeaves, hend, bind_ok hread, walk, nextLeaf, hleaf, hmore]

variable (s) in
/-- With the fuel that the model gives it, a search that does not return never does. -/
theorem findPathToLeaf_returns_iff (key : Value) (hroot : s.metadata.rootPageId ≠ invalidPageId) :
    Returns (findPathToLeaf key) s ↔ ¬ DescentLoops s key := by
  rw [Returns, findPathToLeaf, read_bind, if_neg hroot]
  have hloops := isSome_iff_loops (a := s.metadata.rootPageId)
    fun id (h : (childToward s key id).isSome) => childToward_mem h
  rw [Finset.card_range] at hloops
  exact (descend_returns_iff []).trans (not_congr hloops)

/-- A descent that does not come round ends at a leaf or at a page that is not a node. -/
theorem findPathToLeaf_ends (hroot : s.metadata.rootPageId ≠ invalidPageId)
    (h : ¬ DescentLoops s key) :
    ∃ last, Reaches (childToward s key) s.metadata.rootPageId last ∧ childToward s key last = none ∧
      ((∃ path found, findPathToLeaf key s = (.ok (path, last, found), s)) ∨
        ∃ e, (readNode last s).1 = .error e ∧ findPathToLeaf key s = (.error e, s)) := by
  have hreturns := (findPathToLeaf_returns_iff s key hroot).mpr h
  rw [Returns] at hreturns
  rw [findPathToLeaf, read_bind, if_neg hroot] at hreturns ⊢
  exact descend_ends hreturns

variable (s) in
theorem collectLeaves_pages_returns_iff (range : KeyRange) (id : ℕ) :
    Returns (collectLeaves range (s.pageManager.pages.length + 1) id) s ↔
      ¬ Loops (nextLeaf s range) id := by
  have hloops := isSome_iff_loops (a := id)
    fun id (h : (nextLeaf s range id).isSome) => nextLeaf_mem h
  rw [Finset.card_range] at hloops
  exact collectLeaves_returns_iff.trans (not_congr hloops)

end Loops

theorem validateKeyType_returns (key : Value) : Returns (validateKeyType key) s := by
  unfold Returns validateKeyType
  rw [read_bind]
  split_ifs <;> simp [refuse]

theorem validateKeyType_within (key : Value) : Fallible.Within Eq (validateKeyType key) := by
  intro s
  unfold validateKeyType
  rw [read_bind]
  split_ifs <;> rfl

theorem validateBound_returns (bound : Option Value) : Returns (validateBound bound) s := by
  cases bound with
  | none => simp [Returns, validateBound]
  | some key => exact validateKeyType_returns key

theorem validateBound_within (bound : Option Value) :
    Fallible.Within Eq (validateBound bound) := by
  cases bound with
  | none => exact Fallible.Within.pure ()
  | some key => exact validateKeyType_within key

theorem validateRange_returns (range : KeyRange) : Returns (validateRange range) s := by
  refine (validateBound_returns _).bind fun _ s₁ _ => (validateBound_returns _).bind fun _ s₂ _ => ?_
  unfold Returns
  split_ifs <;> simp [refuse]

theorem validateRange_within (range : KeyRange) : Fallible.Within Eq (validateRange range) := by
  refine (validateBound_within _).bind fun _ => (validateBound_within _).bind fun _ s => ?_
  split_ifs <;> rfl

theorem find_returns_iff (hopen : s.isOpen = true) :
    Returns (find key) s ↔
      ((validateKeyType key s).1 = .ok () → s.metadata.rootPageId ≠ invalidPageId →
        ¬ DescentLoops s key) := by
  rw [Returns, find, read_bind, if_neg (by simp [hopen])]
  refine ((validateKeyType_returns key).bind_iff (validateKeyType_within key)).trans ?_
  refine (Unique.forall_iff (α := Unit)).trans (imp_congr Iff.rfl ?_)
  by_cases hroot : s.metadata.rootPageId = invalidPageId
  · simp [Returns, hroot]
  · rw [if_neg hroot, imp_iff_right hroot, ← findPathToLeaf_returns_iff s key hroot]
    exact returns_map_iff fun r : List SearchPathEntry × ℕ × Option ℕ => r.2.2

/-- What a search in a range does once the range is checked. -/
theorem scan_returns_iff (hroot : s.metadata.rootPageId ≠ invalidPageId) :
    Returns (firstLeafInRange range >>=
        fun current => collectLeaves range (s.pageManager.pages.length + 1) current) s ↔
      (∀ low ∈ range.low, ¬ DescentLoops s low) ∧ ¬ ScanLoops s range := by
  unfold ScanLoops StartsAt firstLeafInRange
  cases range.low with
  | none =>
    refine (collectLeaves_pages_returns_iff s range s.metadata.firstLeafPageId).trans ?_
    simp
  | some low =>
    have hpath := findPathToLeaf_returns_iff s low hroot
    simp only [Option.mem_some_iff, forall_eq']
    by_cases hdescent : DescentLoops s low
    · refine iff_of_false (fun h => ?_) fun h => h.1 hdescent
      exact hpath.mp h.of_bind.of_bind hdescent
    · obtain ⟨last, hlast, hend, hresult⟩ := findPathToLeaf_ends hroot hdescent
      have hstart : (∃ leaf, (Reaches (childToward s low) s.metadata.rootPageId leaf ∧
          childToward s low leaf = none) ∧ Loops (nextLeaf s range) leaf) ↔
            Loops (nextLeaf s range) last := by
        constructor
        · rintro ⟨leaf, ⟨hleaf, hleaf'⟩, hloops⟩
          rwa [hleaf.end_unique hleaf' hlast hend] at hloops
        · intro hloops
          exact ⟨last, ⟨hlast, hend⟩, hloops⟩
      rw [hstart, and_iff_right hdescent]
      rcases hresult with ⟨path, found, hok⟩ | ⟨e, hnode, herr⟩
      · have hfirst : (findPathToLeaf low >>= fun r => pure r.2.1) s = (.ok last, s) := by
          rw [bind_ok hok]
          rfl
        rw [← collectLeaves_pages_returns_iff, Returns, Returns, bind_ok hfirst]
      · have hreturns := hpath.mpr hdescent
        refine iff_of_true ?_ fun hloops =>
          hloops.next_ne_none (.refl last) (nextLeaf_of_readNode_error hnode)
        have hfirst : (findPathToLeaf low >>= fun r => pure r.2.1) s =
            ((.error e : Except TreeError ℕ), s) := bind_error herr
        rw [Returns, herr] at hreturns
        rw [Returns, bind_error hfirst]
        simpa using hreturns

theorem rangeSearch_returns_iff (hopen : s.isOpen = true) :
    Returns (rangeSearch range) s ↔
      ((validateRange range s).1 = .ok () → s.metadata.rootPageId ≠ invalidPageId →
        (∀ low ∈ range.low, ¬ DescentLoops s low) ∧ ¬ ScanLoops s range) := by
  rw [Returns, rangeSearch, read_bind, if_neg (by simp [hopen])]
  refine ((validateRange_returns range).bind_iff (validateRange_within range)).trans ?_
  refine (Unique.forall_iff (α := Unit)).trans (imp_congr Iff.rfl ?_)
  by_cases hroot : s.metadata.rootPageId = invalidPageId
  · simp [Returns, hroot]
  · rw [if_neg hroot, imp_iff_right hroot]
    exact scan_returns_iff hroot

theorem openTree_isOpen {t : BStarTree} (h : openTree t = (.ok (), s)) : s.isOpen = true := by
  unfold openTree at h
  rw [read_bind] at h
  split_ifs at h with hopen
  · cases h
    exact hopen
  · cases h
  · cases h
  · obtain ⟨-, s₁, -, hrest⟩ := bind_eq_ok.mp h
    obtain ⟨-, s₂, -, hlast⟩ := bind_eq_ok.mp hrest
    cases hlast
    rfl

/-- On every file that can be opened, the searches that return are those that do not come
round to a page again. -/
theorem reads_return_iff {file : Option PageFile} (h : openTree (new cfg file) = (.ok (), s)) :
    (∀ key, Returns (find key) s ↔
      ((validateKeyType key s).1 = .ok () → s.metadata.rootPageId ≠ invalidPageId →
        ¬ DescentLoops s key)) ∧
    ∀ range, Returns (rangeSearch range) s ↔
      ((validateRange range s).1 = .ok () → s.metadata.rootPageId ≠ invalidPageId →
        (∀ low ∈ range.low, ¬ DescentLoops s low) ∧ ¬ ScanLoops s range) :=
  ⟨fun _ => find_returns_iff (openTree_isOpen h), fun _ => rangeSearch_returns_iff (openTree_isOpen h)⟩

/-- A file of two pages, the metadata and a root. -/
def rootedFile (root : ByteString) : PageFile :=
  ⟨128, [metadataPage smallConfig ⟨1, 1, 2, 8, 1⟩, root]⟩

def leafRoot (next : ℕ) : ByteString :=
  fillPage smallConfig (leafBytes ⟨.kLeaf, 0, invalidPageId, next, true⟩ [⟨.int 5, 1⟩])

def internalRoot (child : ℕ) : ByteString :=
  fillPage smallConfig
    (internalBytes ⟨.kInternal, 0, invalidPageId, invalidPageId, true⟩ ⟨[], [child]⟩)

/-- What `Open` makes of a file with this root. -/
def openRooted (root : ByteString) : Except TreeError Unit × BStarTree :=
  openTree (new smallConfig (some (rootedFile root)))

theorem reads_return_single_leaf :
    ∃ s, openRooted (leafRoot invalidPageId) = (.ok (), s) ∧
      Returns (find (.int 5)) s ∧ (find (.int 5) s).1 = .ok (some 1) := by
  obtain ⟨s, hs⟩ : ∃ s, (openRooted (leafRoot invalidPageId)).2 = s := ⟨_, rfl⟩
  have hok : (openRooted (leafRoot invalidPageId)).1 = .ok () := by decide +kernel
  have hopen : openRooted (leafRoot invalidPageId) = (.ok (), s) := Prod.ext hok hs
  refine ⟨s, hopen, ((reads_return_iff hopen).1 _).mpr fun _ _ hloops => ?_, ?_⟩
  · have hend : childToward s (.int 5) s.metadata.rootPageId = none := by
      rw [← hs]
      decide +kernel
    exact hloops.next_ne_none (.refl _) hend
  · rw [← hs]
    decide +kernel

/-- A root that is its own child, and a leaf that is its own next leaf. -/
theorem reads_come_round :
    ((openRooted (internalRoot 1)).1 = .ok () ∧
      (find (.int 5) (openRooted (internalRoot 1)).2).1 = .error .noTermination) ∧
    ((openRooted (leafRoot 1)).1 = .ok () ∧
      (rangeSearch {} (openRooted (leafRoot 1)).2).1 = .error .noTermination) := by
  decide +kernel

end CourseDb.BStarTree

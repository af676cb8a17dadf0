import CourseDb.Lib.BTree.Order

/-! # The shape of a tree in a store of nodes

A store gives the content of numbered nodes. Which nodes belong to a tree, at
which depth, and which keys lie under a node is said by following the children;
a tree has its shape when it is balanced, filled, ordered and linked along its
leaves. Every tree of this library that lies in a store has its shape there.
-/

namespace CourseDb.BTree

variable {κ ε : Type} {t : Tree κ ε h} {k : κ} {l : Leaf ε} {c : ℕ × View κ ε}

namespace View

def isRoot : View κ ε → Bool
  | leaf r _ _ => r
  | branch r _ _ => r
  | free => false

def keys (key : ε → κ) : View κ ε → List κ
  | leaf _ _ es => es.map key
  | branch _ separators _ => separators
  | free => []

def isLeaf : View κ ε → Bool
  | leaf _ _ _ => true
  | _ => false

end View

section Store

variable (look : ℕ → Option (View κ ε)) (key : ε → κ)

/-- A node is found at a depth below the root, which has depth one. -/
inductive Reach (root : ℕ) : ℕ → ℕ → Prop
  | root : Reach root 1 root
  | child {d id c : ℕ} {r : Bool} {separators : List κ} {children : List ℕ}
      (h : Reach root d id) (hnode : look id = some (.branch r separators children))
      (hc : c ∈ children) : Reach root (d + 1) c

/-- A key stands in the subtree of a node. -/
inductive Under : ℕ → κ → Prop
  | here {id : ℕ} {v : View κ ε} {k : κ} (hnode : look id = some v) (hk : k ∈ v.keys key) :
      Under id k
  | child {id c : ℕ} {r : Bool} {separators : List κ} {children : List ℕ} {k : κ}
      (hnode : look id = some (.branch r separators children)) (hc : c ∈ children)
      (h : Under c k) : Under id k

/-- The links of leaves lead from one number through the given leaves to the end. -/
inductive Chain (stop : ℕ) : ℕ → List ℕ → Prop
  | nil : Chain stop stop []
  | cons {id next : ℕ} {r : Bool} {es : List ε} {ids : List ℕ}
      (hnode : look id = some (.leaf r next es)) (h : Chain stop next ids) :
      Chain stop id (id :: ids)

def keysAt (id : ℕ) : List κ := ((look id).map (View.keys key)).getD []

/-- The numbers of leaves, linked from `first`: all leaves below the root, each once,
with their keys in ascending order. -/
structure Linked [LT κ] (root first stop : ℕ) (ids : List ℕ) : Prop where
  chain : Chain look stop first ids
  nodup : ids.Nodup
  mem_iff : ∀ id, id ∈ ids ↔ ∃ d v, Reach look root d id ∧ look id = some v ∧ v.isLeaf = true
  ascending : (ids.flatMap (keysAt look key)).Pairwise (· < ·)

/-- A balanced, filled, ordered and linked tree. -/
structure Shape [LinearOrder κ] (low high root first stop height : ℕ) : Prop where
  nodes : ∀ {d id}, Reach look root d id → ∃ v, look id = some v ∧ v ≠ .free
  balanced : ∀ {d id v}, Reach look root d id → look id = some v → v.isLeaf = true → d = height
  occupied : ∀ {d id v}, Reach look root d id → look id = some v → id ≠ root →
    low ≤ (v.keys key).length ∧ (v.keys key).length ≤ high
  root_occupied : ∀ {v}, look root = some v → v.isLeaf = false → 1 ≤ (v.keys key).length
  increasing : ∀ {d id v}, Reach look root d id → look id = some v →
    (v.keys key).Pairwise (· < ·)
  counted : ∀ {d id r separators children}, Reach look root d id →
    look id = some (.branch r separators children) → children.length = separators.length + 1
  separated : ∀ {d id r separators children}, Reach look root d id →
    look id = some (.branch r separators children) → ∀ {i k left right}, separators[i]? = some k →
      children[i]? = some left → children[i + 1]? = some right →
      (∀ k', Under look key left k' → k' < k) ∧ ∀ k', Under look key right k' → k ≤ k'
  marked : ∀ {d id v}, Reach look root d id → look id = some v → (v.isRoot = true ↔ id = root)
  linked : ∃ ids, Linked look key root first stop ids

end Store

/-! ## Leaves from left to right -/

namespace Tree

variable {h : ℕ}

def leaves : {h : ℕ} → Tree κ ε h → List (Leaf ε)
  | 0, t => [t]
  | _ + 1, t => leaves (Branch.first t) ++ (Branch.rest t).flatMap fun p => leaves p.2

theorem leaves_leaf (id next : ℕ) (es : List ε) :
    (leaf id next es : Tree κ ε 0).leaves = [⟨id, next, es⟩] := rfl

theorem links_flat (t : Tree κ ε h) : links t.flat = t.leaves.map fun l => (l.id, l.next) := by
  induction h with
  | zero =>
    obtain ⟨id, next, es, rfl⟩ := t.exists_leaf
    simp [flat_leaf, leaves_leaf]
  | succ h ih =>
    obtain ⟨id, first, rest, rfl⟩ := t.exists_branch
    have hrest : links (flatRight rest) =
        (rest.flatMap fun p => p.2.leaves).map fun l => (l.id, l.next) := by
      induction rest with
      | nil => rfl
      | cons p rest ihrest => simp [flatRight_cons, ih, ihrest]
    rw [flat_branch, links_append, hrest, ih]
    exact (List.map_append ..).symm

theorem entries_flat (t : Tree κ ε h) : entries t.flat = t.leaves.flatMap Leaf.entries := by
  induction h with
  | zero =>
    obtain ⟨id, next, es, rfl⟩ := t.exists_leaf
    simp [flat_leaf, leaves_leaf]
  | succ h ih =>
    obtain ⟨id, first, rest, rfl⟩ := t.exists_branch
    have hrest : entries (flatRight rest) =
        (rest.flatMap fun p => p.2.leaves).flatMap Leaf.entries := by
      induction rest with
      | nil => rfl
      | cons p rest ihrest => simp [flatRight_cons, ih, ihrest]
    rw [flat_branch, entries_append, hrest, ih]
    exact (List.flatMap_append ..).symm

theorem mem_siblingCells {siblings : Siblings κ ε h} :
    c ∈ siblingCells siblings ↔ ∃ p ∈ siblings, c ∈ p.2.cells false := by
  induction siblings with
  | nil => simp
  | cons p siblings ih => simp [ih]

theorem leaf_mem_cells (isRoot : Bool) (t : Tree κ ε h) (hl : l ∈ t.leaves) :
    ∃ r, (l.id, .leaf r l.next l.entries) ∈ t.cells isRoot := by
  induction h generalizing isRoot with
  | zero =>
    rw [List.mem_singleton.mp hl]
    exact ⟨isRoot, Multiset.mem_singleton_self _⟩
  | succ h ih =>
    obtain ⟨id, first, rest, rfl⟩ := t.exists_branch
    simp only [cells_eq, below_branch, Multiset.mem_add]
    rcases List.mem_append.mp hl with hl | hl
    · obtain ⟨r, hr⟩ := ih false first hl
      exact ⟨r, .inr (.inl hr)⟩
    · obtain ⟨p, hp, hl⟩ := List.mem_flatMap.mp hl
      obtain ⟨r, hr⟩ := ih false p.2 hl
      exact ⟨r, .inr (.inr (mem_siblingCells.mpr ⟨p, hp, hr⟩))⟩

/-- The numbers of the leaves are among the numbers of the nodes, each as often. -/
theorem leafIds_le (isRoot : Bool) (t : Tree κ ε h) :
    ((t.leaves.map Leaf.id : List ℕ) : Multiset ℕ) ≤ (t.cells isRoot).map Prod.fst := by
  induction h generalizing isRoot with
  | zero => exact le_of_eq rfl
  | succ h ih =>
    obtain ⟨id, first, rest, rfl⟩ := t.exists_branch
    have hrest : (((rest.flatMap fun p => p.2.leaves).map Leaf.id : List ℕ) : Multiset ℕ) ≤
        (siblingCells rest).map Prod.fst := by
      induction rest with
      | nil => exact le_of_eq rfl
      | cons p rest ihrest =>
        rw [List.flatMap_cons, List.map_append, siblingCells_cons, Multiset.map_add,
          ← Multiset.coe_add]
        exact add_le_add (ih false p.2) ihrest
    have hleaves : (branch id first rest).leaves =
        first.leaves ++ rest.flatMap fun p => p.2.leaves := rfl
    rw [hleaves, List.map_append, ← Multiset.coe_add, cells_eq, below_branch, Multiset.map_add,
      Multiset.map_add]
    exact (add_le_add (ih false first) hrest).trans (Multiset.le_add_left _ _)

theorem leaves_fill (id : ℕ) (left : Siblings κ ε h) (t : Tree κ ε h)
    (right : Siblings κ ε h) :
    (fill id left t right).leaves =
      (left.reverse.flatMap fun p => p.2.leaves) ++
        (t.leaves ++ right.flatMap fun p => p.2.leaves) := by
  induction left generalizing t right with
  | nil => rfl
  | cons p left ih =>
    rw [fill, ih]
    simp

end Tree

namespace Ctx

variable {h H : ℕ}

def leavesBefore {H : ℕ} : {h : ℕ} → Ctx κ ε h H → List (Leaf ε)
  | _, top => []
  | _, frame _ left _ up => up.leavesBefore ++ left.reverse.flatMap fun p => p.2.leaves

def leavesAfter {H : ℕ} : {h : ℕ} → Ctx κ ε h H → List (Leaf ε)
  | _, top => []
  | _, frame _ _ right up => (right.flatMap fun p => p.2.leaves) ++ up.leavesAfter

theorem leaves_plug (C : Ctx κ ε h H) (t : Tree κ ε h) :
    (C.plug t).leaves = C.leavesBefore ++ (t.leaves ++ C.leavesAfter) := by
  induction C with
  | top => simp [plug, leavesBefore, leavesAfter]
  | frame id left right up ih =>
    rw [plug, ih, Tree.leaves_fill]
    simp only [leavesBefore, leavesAfter, List.append_assoc]

theorem entries_before (C : Ctx κ ε h H) :
    entries C.before = C.leavesBefore.flatMap Leaf.entries := by
  induction C with
  | top => rfl
  | frame id left right up ih =>
    have hleft : entries (Tree.flatLeft left) =
        (left.reverse.flatMap fun p => p.2.leaves).flatMap Leaf.entries := by
      induction left with
      | nil => rfl
      | cons p left ihleft => simp [Tree.flatLeft_cons, Tree.entries_flat, ihleft]
    rw [before, leavesBefore, entries_append, ih, hleft, List.flatMap_append]

end Ctx

namespace Tree

variable {h : ℕ} {x : Tree κ ε h}

/-! ## Children -/

theorem exists_fill_of_mem_children {t : Tree κ ε (h + 1)} {c : ℕ} (hc : c ∈ t.children) :
    ∃ left x right, t = fill t.rootId left x right ∧ x.rootId = c := by
  obtain ⟨i, hi⟩ := List.mem_iff_getElem?.mp hc
  have hlt : i < t.children.length := (List.getElem?_eq_some_iff.mp hi).1
  rw [children_length] at hlt
  obtain ⟨left, x, right, hlen, heq⟩ := t.exists_fill (i := i) (by omega)
  refine ⟨left, x, right, heq, ?_⟩
  rw [heq, children_fill, List.getElem?_append_right (by simp [hlen])] at hi
  simpa [hlen] using hi

theorem children_le (isRoot : Bool) (t : Tree κ ε (h + 1)) :
    ((t.children : List ℕ) : Multiset ℕ) ≤ (t.cells isRoot).map Prod.fst := by
  obtain ⟨id, first, rest, rfl⟩ := t.exists_branch
  have hroot : ∀ x : Tree κ ε h, ({x.rootId} : Multiset ℕ) ≤ (x.cells false).map Prod.fst :=
    fun x => Multiset.singleton_le.mpr
      (Multiset.mem_map.mpr ⟨_, rootId_mem_cells false x, rfl⟩)
  have hrest : ((rest.map fun p => p.2.rootId : List ℕ) : Multiset ℕ) ≤
      (siblingCells rest).map Prod.fst := by
    induction rest with
    | nil => exact le_of_eq rfl
    | cons p rest ih =>
      rw [List.map_cons, ← Multiset.cons_coe, ← Multiset.singleton_add, siblingCells_cons,
        Multiset.map_add]
      exact add_le_add (hroot p.2) ih
  rw [children_branch, ← Multiset.cons_coe, ← Multiset.singleton_add, cells_eq, below_branch,
    Multiset.map_add, Multiset.map_add]
  exact (add_le_add (hroot first) hrest).trans (Multiset.le_add_left _ _)

theorem exists_leaf_of_mem_children {t : Tree κ ε 1} {c : ℕ} (hc : c ∈ t.children) :
    ∃ l ∈ t.leaves, l.id = c := by
  obtain ⟨left, x, right, hfill, rfl⟩ := exists_fill_of_mem_children hc
  obtain ⟨id, next, entries, rfl⟩ := x.exists_leaf
  refine ⟨⟨id, next, entries⟩, ?_, rfl⟩
  rw [hfill, leaves_fill, leaves_leaf]
  simp

theorem cells_le_fill (id : ℕ) (left : Siblings κ ε h) (x : Tree κ ε h)
    (right : Siblings κ ε h) (isRoot : Bool) :
    x.cells false ≤ (fill id left x right).cells isRoot := by
  rw [cells_eq, below_fill]
  exact (Multiset.le_add_right _ _).trans (Multiset.le_add_left _ _)

/-- The subtree hangs directly under the root of the tree. -/
def IsChild (x : Tree κ ε h) (t : Tree κ ε (h + 1)) : Prop :=
  x = Branch.first t ∨ ∃ p ∈ Branch.rest t, p.2 = x

theorem IsChild.rootId_mem {t : Tree κ ε (h + 1)} (hx : IsChild x t) : x.rootId ∈ t.children := by
  rcases hx with rfl | ⟨p, hp, rfl⟩
  · exact List.mem_cons_self
  · exact List.mem_cons_of_mem _ (List.mem_map.mpr ⟨p, hp, rfl⟩)

theorem exists_isChild {t : Tree κ ε (h + 1)} {c : ℕ} (hc : c ∈ t.children) :
    ∃ x, IsChild x t ∧ x.rootId = c := by
  rcases List.mem_cons.mp hc with rfl | hc
  · exact ⟨_, .inl rfl, rfl⟩
  · obtain ⟨p, hp, rfl⟩ := List.mem_map.mp hc
    exact ⟨p.2, .inr ⟨p, hp, rfl⟩, rfl⟩

theorem IsChild.cells_le {t : Tree κ ε (h + 1)} (hx : IsChild x t) (isRoot : Bool) :
    x.cells false ≤ t.cells isRoot := by
  rw [cells_eq, below]
  refine le_trans ?_ (Multiset.le_add_left _ _)
  rcases hx with rfl | ⟨p, hp, rfl⟩
  · exact Multiset.le_add_right _ _
  · obtain ⟨before, after, hrest⟩ := List.append_of_mem hp
    rw [hrest, siblingCells_append, siblingCells_cons]
    refine le_trans ?_ (Multiset.le_add_left _ _)
    refine le_trans ?_ (Multiset.le_add_left _ _)
    exact Multiset.le_add_right _ _

theorem IsChild.flat_sublist {t : Tree κ ε (h + 1)} (hx : IsChild x t) : x.flat.Sublist t.flat := by
  obtain ⟨id, first, rest, rfl⟩ := t.exists_branch
  rw [flat_branch]
  rcases hx with rfl | ⟨p, hp, rfl⟩
  · exact List.sublist_append_left _ _
  · obtain ⟨before, after, hrest⟩ := List.append_of_mem hp
    have hrest : rest = before ++ p :: after := hrest
    rw [hrest, flatRight_append, flatRight_cons]
    refine List.Sublist.trans ?_ (List.sublist_append_right _ _)
    refine List.Sublist.trans ?_ (List.sublist_append_right _ _)
    exact (List.sublist_append_left _ _).trans (List.sublist_cons_self _ _)

theorem exists_isChild_of_mem_leaves {t : Tree κ ε (h + 1)} (hl : l ∈ t.leaves) :
    ∃ x, IsChild x t ∧ l ∈ x.leaves := by
  rcases List.mem_append.mp hl with hl | hl
  · exact ⟨_, .inl rfl, hl⟩
  · obtain ⟨p, hp, hl⟩ := List.mem_flatMap.mp hl
    exact ⟨p.2, .inr ⟨p, hp, rfl⟩, hl⟩

/-! ## Filled trees -/

variable {p : ℕ → Prop}

theorem exists_entry (hp : ∀ n, p n → 1 ≤ n) (ht : t.Sized p) : ∃ e, Item.entry e ∈ t.flat := by
  induction h with
  | zero =>
    obtain ⟨id, next, es, rfl⟩ := t.exists_leaf
    have hlen : 1 ≤ es.length := hp _ ht.1
    obtain ⟨e, he⟩ := List.exists_mem_of_length_pos hlen
    exact ⟨e, by simp [flat_leaf, he]⟩
  | succ h ih =>
    obtain ⟨id, first, rest, rfl⟩ := t.exists_branch
    obtain ⟨e, he⟩ := ih ((sizedBelow_branch id first rest).mp ht.2).1
    exact ⟨e, by simp [flat_branch, he]⟩

/-- After every separator of a filled tree comes an entry. -/
theorem exists_entry_after (hp : ∀ n, p n → 1 ≤ n) (ht : t.SizedBelow p)
    (hk : Item.separator k ∈ t.flat) :
    ∃ a b e, t.flat = a ++ .separator k :: b ∧ Item.entry e ∈ b := by
  induction h with
  | zero =>
    obtain ⟨id, next, es, rfl⟩ := t.exists_leaf
    simp [flat_leaf] at hk
  | succ h ih =>
    obtain ⟨id, first, rest, rfl⟩ := t.exists_branch
    obtain ⟨hfirst, hrest⟩ := (sizedBelow_branch id first rest).mp ht
    rw [flat_branch] at hk ⊢
    rcases List.mem_append.mp hk with hk | hk
    · obtain ⟨a, b, e, hflat, he⟩ := ih hfirst.2 hk
      exact ⟨a, b ++ flatRight rest, e, by simp [hflat], List.mem_append_left _ he⟩
    · -- the separator stands before a child, or inside of one
      obtain ⟨q, hq, hkq⟩ := List.mem_flatMap.mp hk
      obtain ⟨before, after, rfl⟩ := List.append_of_mem hq
      rcases List.mem_cons.mp hkq with heq | hkq
      · cases heq
        obtain ⟨e, he⟩ := exists_entry hp (hrest q hq)
        refine ⟨first.flat ++ flatRight before, q.2.flat ++ flatRight after, e, ?_,
          List.mem_append_left _ he⟩
        simp [flatRight_append, flatRight_cons]
      · obtain ⟨a, b, e, hflat, he⟩ := ih (hrest q hq).2 hkq
        refine ⟨first.flat ++ (flatRight before ++ .separator q.1 :: a), b ++ flatRight after, e, ?_,
          List.mem_append_left _ he⟩
        simp [flatRight_append, flatRight_cons, hflat]

end Tree

/-! ## Keys in order -/

def Item.key? (key : ε → κ) : Item κ ε → Option κ
  | start _ _ => none
  | entry e => some (key e)
  | separator k => some k

section Order

variable [LinearOrder κ] {key : ε → κ} {h : ℕ} {p : ℕ → Prop}

namespace Item

theorem separator_le {x : Item κ ε} {k' : κ} (h : (separator k).Before key x)
    (hx : x.key? key = some k') : k ≤ k' := by
  cases x <;> cases hx <;> exact h

end Item

theorem Sorted.entries_pairwise {F : List (Item κ ε)} (hF : Sorted key F) :
    ((entries F).map key).Pairwise (· < ·) := by
  rw [List.pairwise_map]
  refine List.Pairwise.filterMap _ ?_ hF
  intro x y hxy e he e' he'
  cases x <;> cases he
  cases y <;> cases he'
  exact hxy

/-- What stands in a filled tree before a separator lies strictly below it. -/
theorem Tree.key_lt_of_before (hp : ∀ n, p n → 1 ≤ n) (ht : t.SizedBelow p)
    (hsorted : Sorted key t.flat) (hk : ∀ x ∈ t.flat, x.Before key (.separator k)) {x : Item κ ε}
    (hx : x ∈ t.flat) {k' : κ} (hx' : x.key? key = some k') : k' < k := by
  cases x with
  | start id next => cases hx'
  | entry e =>
    cases hx'
    exact hk _ hx
  | separator s =>
    cases hx'
    obtain ⟨a, b, e, hflat, he⟩ := Tree.exists_entry_after hp ht hx
    have hmem : Item.entry e ∈ t.flat := by
      rw [hflat]
      exact List.mem_append_right _ (List.mem_cons_of_mem _ he)
    rw [hflat] at hsorted
    obtain ⟨-, hafter, -⟩ := List.pairwise_append.mp hsorted
    have hle : k' ≤ key e := (List.pairwise_cons.mp hafter).1 _ he
    exact lt_of_le_of_lt hle (hk _ hmem)

theorem Tree.flatRight_separators_pairwise (hp : ∀ n, p n → 1 ≤ n) {rest : Siblings κ ε h}
    (hrest : ∀ q ∈ rest, q.2.Sized p) (hsorted : Sorted key (flatRight rest)) :
    (rest.map Prod.fst).Pairwise (· < ·) := by
  induction rest with
  | nil => exact List.Pairwise.nil
  | cons q rest ih =>
    rw [flatRight_cons] at hsorted
    obtain ⟨hq, htail⟩ := List.pairwise_cons.mp hsorted
    obtain ⟨-, hright, hacross⟩ := List.pairwise_append.mp htail
    obtain ⟨e, he⟩ := exists_entry hp (hrest q List.mem_cons_self)
    refine List.pairwise_cons.mpr
      ⟨?_, ih (fun q' hq' => hrest q' (List.mem_cons_of_mem q hq')) hright⟩
    intro k hk
    obtain ⟨q', hq', rfl⟩ := List.mem_map.mp hk
    have hsep : Item.separator q'.1 ∈ flatRight rest :=
      List.mem_flatMap.mpr ⟨q', hq', List.mem_cons_self⟩
    -- an entry of the child between the two separators keeps them apart
    have hle : q.1 ≤ key e := hq _ (List.mem_append_left _ he)
    exact lt_of_le_of_lt hle (hacross _ he _ hsep)

theorem Tree.separators_pairwise (hp : ∀ n, p n → 1 ≤ n) {t : Tree κ ε (h + 1)}
    (ht : t.SizedBelow p) (hsorted : Sorted key t.flat) : t.separators.Pairwise (· < ·) := by
  obtain ⟨id, first, rest, rfl⟩ := t.exists_branch
  rw [flat_branch] at hsorted
  exact flatRight_separators_pairwise hp ((sizedBelow_branch id first rest).mp ht).2
    (List.pairwise_append.mp hsorted).2.1

end Order

/-! ## Trees that lie in a store -/

section Agrees

variable {look : ℕ → Option (View κ ε)} {h H : ℕ}

/-- The store holds the nodes. -/
def Agrees (look : ℕ → Option (View κ ε)) (M : Cells κ ε) : Prop := ∀ c ∈ M, look c.1 = some c.2

theorem Agrees.mono {M M' : Cells κ ε} (hM : Agrees look M) (hle : M' ≤ M) : Agrees look M' :=
  fun c hc => hM c (Multiset.mem_of_le hle hc)

theorem Agrees.look_root {isRoot : Bool} (ht : Agrees look (t.cells isRoot)) :
    look t.rootId = some (t.view isRoot) :=
  ht _ (Tree.rootId_mem_cells isRoot t)

theorem Agrees.plug {C : Ctx κ ε h H} {X : Tree κ ε h}
    (hT : Agrees look ((C.plug X).cells true)) : Agrees look (X.cells C.isTop) := by
  rw [Ctx.cells_plug] at hT
  exact hT.mono (Multiset.le_add_left _ _)

/-- Every node that is reached is the root of a subtree at that depth. -/
theorem Reach.exists_focus {T : Tree κ ε H} (hT : Agrees look (T.cells true)) {d id : ℕ}
    (hreach : Reach look T.rootId d id) :
    ∃ (h : ℕ) (C : Ctx κ ε h H) (X : Tree κ ε h), C.plug X = T ∧ X.rootId = id ∧ d + h = H + 1 := by
  induction hreach with
  | root => exact ⟨H, .top, T, rfl, rfl, Nat.add_comm 1 H⟩
  | child hreach hnode hc ih =>
    obtain ⟨h, C, X, rfl, rfl, hdepth⟩ := ih
    rw [hT.plug.look_root] at hnode
    cases h with
    | zero => cases hnode
    | succ h =>
      cases hnode
      obtain ⟨left, x, right, hfill, hx⟩ := Tree.exists_fill_of_mem_children hc
      refine ⟨h, .frame X.rootId left right C, x, ?_, hx, by omega⟩
      rw [Ctx.plug, ← hfill]

theorem reach_leaf {root d : ℕ} {isRoot : Bool} (ht : Agrees look (t.cells isRoot))
    (hreach : Reach look root d t.rootId) (hl : l ∈ t.leaves) : ∃ d', Reach look root d' l.id := by
  induction h generalizing d isRoot with
  | zero =>
    rw [List.mem_singleton.mp hl]
    exact ⟨d, hreach⟩
  | succ h ih =>
    obtain ⟨x, hx, hl⟩ := Tree.exists_isChild_of_mem_leaves hl
    exact ih (ht.mono (hx.cells_le isRoot)) (hreach.child ht.look_root hx.rootId_mem) hl

/-- The keys under a node are those that its subtree shows. -/
theorem exists_item_of_under {key : ε → κ} {isRoot : Bool} (ht : Agrees look (t.cells isRoot))
    (hk : Under look key t.rootId k) : ∃ x ∈ t.flat, x.key? key = some k := by
  induction h generalizing isRoot with
  | zero =>
    obtain ⟨id, next, es, rfl⟩ := t.exists_leaf
    cases hk with
    | here hnode hk =>
      rw [ht.look_root] at hnode
      cases hnode
      obtain ⟨e, he, rfl⟩ := List.mem_map.mp hk
      exact ⟨.entry e, List.mem_cons_of_mem _ (List.mem_map.mpr ⟨e, he, rfl⟩), rfl⟩
    | child hnode hc hk =>
      rw [ht.look_root] at hnode
      cases hnode
  | succ h ih =>
    cases hk with
    | here hnode hk =>
      rw [ht.look_root] at hnode
      cases hnode
      obtain ⟨id, first, rest, rfl⟩ := t.exists_branch
      obtain ⟨p, hp, rfl⟩ := List.mem_map.mp hk
      refine ⟨.separator p.1, ?_, rfl⟩
      rw [Tree.flat_branch]
      exact List.mem_append_right _ (List.mem_flatMap.mpr ⟨p, hp, List.mem_cons_self⟩)
    | child hnode hc hk =>
      rw [ht.look_root] at hnode
      cases hnode
      obtain ⟨x, hx, rfl⟩ := Tree.exists_isChild hc
      obtain ⟨y, hy, hyk⟩ := ih (ht.mono (hx.cells_le isRoot)) hk
      exact ⟨y, hx.flat_sublist.subset hy, hyk⟩

theorem chain_of_leads {first stop : ℕ} {leaves : List (Leaf ε)}
    (hleads : Leads first (leaves.map fun l => (l.id, l.next)) stop)
    (hlook : ∀ l ∈ leaves, ∃ r, look l.id = some (.leaf r l.next l.entries)) :
    Chain look stop first (leaves.map Leaf.id) := by
  induction leaves generalizing first with
  | nil =>
    cases hleads
    exact .nil
  | cons l leaves ih =>
    obtain ⟨rfl, hleads⟩ := hleads
    obtain ⟨r, hr⟩ := hlook l List.mem_cons_self
    exact .cons hr (ih hleads fun l' hl' => hlook l' (List.mem_cons_of_mem l hl'))

theorem Tree.isRoot_view (isRoot : Bool) (t : Tree κ ε h) : (t.view isRoot).isRoot = isRoot := by
  cases h <;> rfl

theorem Tree.keys_view_length (key : ε → κ) (isRoot : Bool) (t : Tree κ ε h) :
    ((t.view isRoot).keys key).length = t.keyCount := by
  cases h with
  | zero => exact List.length_map _
  | succ h => exact t.separators_length

theorem Tree.view_ne_free (isRoot : Bool) (t : Tree κ ε h) : t.view isRoot ≠ .free := by
  intro hfree
  cases h <;> cases hfree

theorem Tree.ne_free_of_mem_cells (isRoot : Bool) (t : Tree κ ε h) (hc : c ∈ t.cells isRoot) :
    c.2 ≠ .free := by
  induction h generalizing isRoot with
  | zero =>
    rw [Multiset.mem_singleton.mp hc]
    exact t.view_ne_free isRoot
  | succ h ih =>
    obtain ⟨id, first, rest, rfl⟩ := t.exists_branch
    rw [cells_eq, below_branch, Multiset.mem_add, Multiset.mem_add] at hc
    rcases hc with hc | hc | hc
    · rw [Multiset.mem_singleton.mp hc]
      exact (branch id first rest).view_ne_free isRoot
    · exact ih false first hc
    · obtain ⟨p, -, hp⟩ := mem_siblingCells.mp hc
      exact ih false p.2 hp

theorem Ctx.rootId_eq_of_isTop {C : Ctx κ ε h H} {X : Tree κ ε h} (hC : C.isTop = true) :
    X.rootId = (C.plug X).rootId := by
  cases C with
  | top => rfl
  | frame id left right up => cases hC

end Agrees

section Shape

variable [LinearOrder κ] {key : ε → κ} {look : ℕ → Option (View κ ε)} {h H first stop : ℕ}
  {E : List ε} {T : Tree κ ε H}

theorem Sorted.plug {C : Ctx κ ε h H} {X : Tree κ ε h} (hs : Sorted key (C.plug X).flat) :
    Sorted key X.flat := by
  rw [Ctx.flat_plug] at hs
  exact hs.sublist ((List.sublist_append_left _ _).trans (List.sublist_append_right _ _))

theorem linked_of_tree (hT : Agrees look (T.cells true))
    (hnodup : ((T.cells true).map Prod.fst).Nodup) (hshows : Shows key first stop E T.flat) :
    Linked look key T.rootId first stop (T.leaves.map Leaf.id) := by
  have hlook : ∀ l ∈ T.leaves, ∃ r, look l.id = some (.leaf r l.next l.entries) := by
    intro l hl
    obtain ⟨r, hr⟩ := T.leaf_mem_cells true hl
    exact ⟨r, hT _ hr⟩
  constructor
  · apply chain_of_leads _ hlook
    rw [← Tree.links_flat]
    exact hshows.leads
  · exact Multiset.coe_nodup.mp (Multiset.nodup_of_le (T.leafIds_le true) hnodup)
  · intro id
    constructor
    · intro hid
      obtain ⟨l, hl, rfl⟩ := List.mem_map.mp hid
      obtain ⟨d, hd⟩ := reach_leaf hT .root hl
      obtain ⟨r, hr⟩ := hlook l hl
      exact ⟨d, _, hd, hr, rfl⟩
    · rintro ⟨d, v, hreach, hv, hleaf⟩
      obtain ⟨h, C, X, rfl, rfl, -⟩ := hreach.exists_focus hT
      rw [hT.plug.look_root] at hv
      cases hv
      cases h with
      | succ h => cases hleaf
      | zero =>
        -- the leaf shows its number in the sequence of the whole tree
        obtain ⟨id, next, es, rfl⟩ := X.exists_leaf
        have hlink : (id, next) ∈ links (C.plug (Tree.leaf id next es)).flat := by
          rw [Ctx.flat_plug, Tree.flat_leaf]
          simp
        rw [Tree.links_flat] at hlink
        obtain ⟨l, hl, heq⟩ := List.mem_map.mp hlink
        exact List.mem_map.mpr ⟨l, hl, congrArg Prod.fst heq⟩
  · have hkeys : (T.leaves.map Leaf.id).flatMap (keysAt look key) = (entries T.flat).map key := by
      rw [Tree.entries_flat, List.map_flatMap, List.flatMap_map]
      apply List.flatMap_congr
      intro l hl
      obtain ⟨r, hr⟩ := hlook l hl
      simp [keysAt, hr, View.keys]
    rw [hkeys]
    exact hshows.sorted.entries_pairwise

/-- A separator divides the keys under its two children. -/
theorem separated_of_tree {p : ℕ → Prop} (hp : ∀ n, p n → 1 ≤ n) {isRoot : Bool}
    {X : Tree κ ε (h + 1)} (hX : Agrees look (X.cells isRoot)) (hsized : X.SizedBelow p)
    (hsorted : Sorted key X.flat) {i left right : ℕ} (hk : X.separators[i]? = some k)
    (hleft : X.children[i]? = some left) (hright : X.children[i + 1]? = some right) :
    (∀ k', Under look key left k' → k' < k) ∧ ∀ k', Under look key right k' → k ≤ k' := by
  have hlt : i < X.keyCount := by
    have hlen := (List.getElem?_eq_some_iff.mp hk).1
    rwa [Tree.separators_length] at hlen
  obtain ⟨before, a, after, hlen, hfill⟩ := X.exists_fill hlt.le
  cases after with
  | nil =>
    have hcount := congrArg Tree.keyCount hfill
    rw [Tree.keyCount_fill, hlen, List.length_nil] at hcount
    omega
  | cons q after =>
    obtain ⟨k₀, b⟩ := q
    -- the separator and the two children around it, in the sequence of the node
    rw [hfill, Tree.separators_fill, List.getElem?_append_right (by simp [hlen])] at hk
    rw [hfill, Tree.children_fill, List.getElem?_append_right (by simp [hlen])] at hleft
    rw [hfill, Tree.children_fill, List.getElem?_append_right (by simp [hlen])] at hright
    obtain rfl : k₀ = k := by simpa [hlen] using hk
    obtain rfl : a.rootId = left := by simpa [hlen] using hleft
    obtain rfl : b.rootId = right := by simpa [hlen] using hright
    have ha : a.cells false ≤ X.cells isRoot :=
      hfill ▸ Tree.cells_le_fill X.rootId before a ((k₀, b) :: after) isRoot
    have hb : b.cells false ≤ X.cells isRoot :=
      hfill ▸ Tree.cells_le_fill X.rootId ((k₀, a) :: before) b after isRoot
    rw [hfill, Tree.flat_fill, Tree.flatRight_cons] at hsorted
    obtain ⟨-, hsorted, -⟩ := List.pairwise_append.mp hsorted
    obtain ⟨hasorted, hrest, hacross⟩ := List.pairwise_append.mp hsorted
    have hasized : a.Sized p := by
      rw [hfill, Tree.sizedBelow_fill] at hsized
      exact hsized.1
    constructor
    · intro k' hk'
      obtain ⟨x, hx, hxk⟩ := exists_item_of_under (hX.mono ha) hk'
      exact Tree.key_lt_of_before hp hasized.2 hasorted
        (fun y hy => hacross y hy _ List.mem_cons_self) hx hxk
    · intro k' hk'
      obtain ⟨x, hx, hxk⟩ := exists_item_of_under (hX.mono hb) hk'
      exact Item.separator_le ((List.pairwise_cons.mp hrest).1 x (List.mem_append_left _ hx)) hxk

/-- A tree that lies in a store, with its nodes filled and its sequence in order, has
its shape there. -/
theorem shape_of_tree {low high : ℕ} {q : ℕ → Prop} (hlow : 1 ≤ low) (hq : ∀ n, q n → 1 ≤ n)
    (hT : Agrees look (T.cells true)) (hnodup : ((T.cells true).map Prod.fst).Nodup)
    (hsized : T.RootSized (fun n => low ≤ n ∧ n ≤ high) q)
    (hshows : Shows key first stop E T.flat) :
    Shape look key low high T.rootId first stop (H + 1) where
  nodes := by
    intro d id hreach
    obtain ⟨h, C, X, rfl, rfl, -⟩ := hreach.exists_focus hT
    exact ⟨_, hT.plug.look_root, X.view_ne_free _⟩
  balanced := by
    intro d id v hreach hv hleaf
    obtain ⟨h, C, X, rfl, rfl, hdepth⟩ := hreach.exists_focus hT
    rw [hT.plug.look_root] at hv
    cases hv
    cases h with
    | zero => exact hdepth
    | succ h => cases hleaf
  occupied := by
    intro d id v hreach hv hid
    obtain ⟨h, C, X, rfl, rfl, -⟩ := hreach.exists_focus hT
    rw [hT.plug.look_root] at hv
    cases hv
    obtain ⟨-, hcount, -⟩ := (Ctx.rootSized_plug C X).mp hsized
    have hbelow : C.isTop = false := by
      rw [← Bool.not_eq_true]
      exact fun htop => hid (Ctx.rootId_eq_of_isTop htop)
    rw [Ctx.Allows, hbelow] at hcount
    rw [Tree.keys_view_length]
    exact hcount
  root_occupied := by
    intro v hv _
    rw [hT.look_root] at hv
    cases hv
    rw [Tree.keys_view_length]
    exact hq _ hsized.1
  increasing := by
    intro d id v hreach hv
    obtain ⟨h, C, X, rfl, rfl, -⟩ := hreach.exists_focus hT
    rw [hT.plug.look_root] at hv
    cases hv
    have hsorted := hshows.sorted.plug
    cases h with
    | zero =>
      obtain ⟨id, next, es, rfl⟩ := X.exists_leaf
      have hentries := hsorted.entries_pairwise
      rw [Tree.flat_leaf, entries_start, entries_map_entry] at hentries
      exact hentries
    | succ h =>
      obtain ⟨-, -, hbelow⟩ := (Ctx.rootSized_plug C X).mp hsized
      exact Tree.separators_pairwise (fun n hn => hlow.trans hn.1) hbelow hsorted
  counted := by
    intro d id r separators children hreach hv
    obtain ⟨h, C, X, rfl, rfl, -⟩ := hreach.exists_focus hT
    rw [hT.plug.look_root] at hv
    cases h with
    | zero => cases hv
    | succ h =>
      cases hv
      rw [Tree.children_length, Tree.separators_length]
  separated := by
    intro d id r separators children hreach hv i k left right hk hleft hright
    obtain ⟨h, C, X, rfl, rfl, -⟩ := hreach.exists_focus hT
    rw [hT.plug.look_root] at hv
    cases h with
    | zero => cases hv
    | succ h =>
      cases hv
      exact separated_of_tree (fun n hn => hlow.trans hn.1) hT.plug
        ((Ctx.rootSized_plug C X).mp hsized).2.2 hshows.sorted.plug hk hleft hright
  marked := by
    intro d id v hreach hv
    obtain ⟨h, C, X, rfl, rfl, -⟩ := hreach.exists_focus hT
    have hroot := hT.look_root
    rw [hT.plug.look_root] at hv
    cases hv
    rw [Tree.isRoot_view]
    constructor
    · exact Ctx.rootId_eq_of_isTop
    · intro hid
      rw [← hid, hT.plug.look_root, Option.some.injEq] at hroot
      have hmark := congrArg View.isRoot hroot
      rwa [Tree.isRoot_view, Tree.isRoot_view] at hmark
  linked := ⟨_, linked_of_tree hT hnodup hshows⟩

end Shape

end CourseDb.BTree

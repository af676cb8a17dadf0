import Mathlib.Tactic
import Mathlib.Algebra.Order.Group.Multiset

/-! # Search trees stored in numbered nodes

A tree has all its leaves at one height. Leaves hold entries and the number of
the next leaf; branches hold children with separators between them. A tree is
seen in two ways: as the multiset of node contents it occupies in a store, and
as the sequence of leaf starts, entries and separators from left to right. A
context is a tree with a hole, from the hole up to the root.
-/

namespace CourseDb.BTree

/-- The content of one numbered node. -/
inductive View (κ ε : Type) where
  | leaf (isRoot : Bool) (next : ℕ) (entries : List ε)
  | branch (isRoot : Bool) (separators : List κ) (children : List ℕ)
  | free
deriving DecidableEq

/-- What a tree shows from left to right. -/
inductive Item (κ ε : Type) where
  | start (id next : ℕ)
  | entry (e : ε)
  | separator (k : κ)

structure Leaf (ε : Type) where
  id : ℕ
  next : ℕ
  entries : List ε

/-- A node above trees of type `τ`: the first child, and the others with the
separators before them. -/
structure Branch (κ τ : Type) where
  id : ℕ
  first : τ
  rest : List (κ × τ)

/-- A tree of a given height. -/
def Tree (κ ε : Type) : ℕ → Type
  | 0 => Leaf ε
  | h + 1 => Branch κ (Tree κ ε h)

/-- Children on one side of another, each with the separator between. -/
abbrev Siblings (κ ε : Type) (h : ℕ) := List (κ × Tree κ ε h)

/-- The content of nodes, by their numbers. -/
abbrev Cells (κ ε : Type) := Multiset (ℕ × View κ ε)

variable {κ ε : Type} {h H : ℕ} {p : ℕ → Prop}

namespace Tree

def leaf (id next : ℕ) (entries : List ε) : Tree κ ε 0 := Leaf.mk id next entries

def branch (id : ℕ) (first : Tree κ ε h) (rest : Siblings κ ε h) : Tree κ ε (h + 1) :=
  Branch.mk id first rest

theorem exists_leaf (t : Tree κ ε 0) : ∃ id next entries, t = leaf id next entries :=
  ⟨Leaf.id t, Leaf.next t, Leaf.entries t, rfl⟩

theorem exists_branch (t : Tree κ ε (h + 1)) : ∃ id first rest, t = branch id first rest :=
  ⟨Branch.id t, Branch.first t, Branch.rest t, rfl⟩

def rootId : {h : ℕ} → Tree κ ε h → ℕ
  | 0, t => Leaf.id t
  | _ + 1, t => Branch.id t

/-- The entries of a leaf, or the separators of a branch, counted. -/
def keyCount : {h : ℕ} → Tree κ ε h → ℕ
  | 0, t => (Leaf.entries t).length
  | _ + 1, t => (Branch.rest t).length

def separators (t : Tree κ ε (h + 1)) : List κ := (Branch.rest t).map Prod.fst

/-- The numbers of the nodes below the root of a tree. -/
def children (t : Tree κ ε (h + 1)) : List ℕ :=
  (Branch.first t).rootId :: (Branch.rest t).map fun p => p.2.rootId

def view (isRoot : Bool) : {h : ℕ} → Tree κ ε h → View κ ε
  | 0, t => .leaf isRoot (Leaf.next t) (Leaf.entries t)
  | _ + 1, t => .branch isRoot t.separators t.children

def cells : (isRoot : Bool) → {h : ℕ} → Tree κ ε h → Cells κ ε
  | isRoot, 0, t => {(t.rootId, t.view isRoot)}
  | isRoot, _ + 1, t =>
    {(t.rootId, t.view isRoot)} +
      (cells false (Branch.first t) + ((Branch.rest t).map fun p => cells false p.2).sum)

/-- A tree from left to right. -/
def flat : {h : ℕ} → Tree κ ε h → List (Item κ ε)
  | 0, t => .start t.rootId (Leaf.next t) :: (Leaf.entries t).map .entry
  | _ + 1, t =>
    flat (Branch.first t) ++ (Branch.rest t).flatMap fun p => .separator p.1 :: flat p.2

/-- Every node below the root of a tree has an allowed number of keys. -/
def SizedBelow (p : ℕ → Prop) : {h : ℕ} → Tree κ ε h → Prop
  | 0, _ => True
  | _ + 1, t =>
    (p (Branch.first t).keyCount ∧ SizedBelow p (Branch.first t)) ∧
      ∀ q ∈ Branch.rest t, p q.2.keyCount ∧ SizedBelow p q.2

/-- Every node of a tree has an allowed number of keys. -/
def Sized (p : ℕ → Prop) (t : Tree κ ε h) : Prop := p t.keyCount ∧ SizedBelow p t

@[simp] theorem rootId_leaf (id next : ℕ) (entries : List ε) :
    (leaf id next entries : Tree κ ε 0).rootId = id := rfl

@[simp] theorem rootId_branch (id : ℕ) (first : Tree κ ε h) (rest : Siblings κ ε h) :
    (branch id first rest).rootId = id := rfl

@[simp] theorem keyCount_leaf (id next : ℕ) (entries : List ε) :
    (leaf id next entries : Tree κ ε 0).keyCount = entries.length := rfl

@[simp] theorem keyCount_branch (id : ℕ) (first : Tree κ ε h) (rest : Siblings κ ε h) :
    (branch id first rest).keyCount = rest.length := rfl

@[simp] theorem view_branch (isRoot : Bool) (t : Tree κ ε (h + 1)) :
    t.view isRoot = .branch isRoot t.separators t.children := rfl

@[simp] theorem separators_branch (id : ℕ) (first : Tree κ ε h) (rest : Siblings κ ε h) :
    (branch id first rest).separators = rest.map Prod.fst := rfl

@[simp] theorem children_branch (id : ℕ) (first : Tree κ ε h) (rest : Siblings κ ε h) :
    (branch id first rest).children = first.rootId :: rest.map fun p => p.2.rootId := rfl

@[simp] theorem separators_length (t : Tree κ ε (h + 1)) : t.separators.length = t.keyCount :=
  List.length_map _

theorem children_length (t : Tree κ ε (h + 1)) : t.children.length = t.keyCount + 1 := by
  simp [children, keyCount]

theorem cells_leaf (isRoot : Bool) (id next : ℕ) (entries : List ε) :
    (leaf id next entries : Tree κ ε 0).cells isRoot = {(id, .leaf isRoot next entries)} := rfl

theorem flat_leaf (id next : ℕ) (entries : List ε) :
    (leaf id next entries : Tree κ ε 0).flat = .start id next :: entries.map .entry := rfl

def siblingCells (siblings : Siblings κ ε h) : Cells κ ε :=
  (siblings.map fun p => p.2.cells false).sum

@[simp] theorem siblingCells_nil : siblingCells ([] : Siblings κ ε h) = 0 := rfl

@[simp] theorem siblingCells_cons (p : κ × Tree κ ε h) (siblings : Siblings κ ε h) :
    siblingCells (p :: siblings) = p.2.cells false + siblingCells siblings := rfl

theorem siblingCells_append (l r : Siblings κ ε h) :
    siblingCells (l ++ r) = siblingCells l + siblingCells r := by
  rw [siblingCells, List.map_append, List.sum_append]
  rfl

def below (t : Tree κ ε (h + 1)) : Cells κ ε :=
  (Branch.first t).cells false + siblingCells (Branch.rest t)

theorem below_branch (id : ℕ) (first : Tree κ ε h) (rest : Siblings κ ε h) :
    (branch id first rest).below = first.cells false + siblingCells rest := rfl

theorem cells_eq (isRoot : Bool) (t : Tree κ ε (h + 1)) :
    t.cells isRoot = {(t.rootId, .branch isRoot t.separators t.children)} + t.below := rfl

theorem rootId_mem_cells (isRoot : Bool) (t : Tree κ ε h) : (t.rootId, t.view isRoot) ∈ t.cells isRoot := by
  cases h with
  | zero => exact Multiset.mem_singleton_self _
  | succ h => exact Multiset.mem_add.mpr (.inl (Multiset.mem_singleton_self _))

theorem height_lt_card_cells (isRoot : Bool) (t : Tree κ ε h) :
    h < Multiset.card (t.cells isRoot) := by
  induction h generalizing isRoot with
  | zero => exact Nat.one_pos
  | succ h ih =>
    have hfirst := ih false (Branch.first t)
    simp only [cells_eq, below, Multiset.card_add, Multiset.card_singleton]
    omega

/-- A branch with a marked child: what lies left of it, nearest first, and right of it. -/
def fill (id : ℕ) : Siblings κ ε h → Tree κ ε h → Siblings κ ε h → Tree κ ε (h + 1)
  | [], t, right => branch id t right
  | (k, a) :: left, t, right => fill id left a ((k, t) :: right)

section

variable (id : ℕ) (left : Siblings κ ε h) (t : Tree κ ε h) (right : Siblings κ ε h)

@[simp] theorem rootId_fill : (fill id left t right).rootId = id := by
  induction left generalizing t right with
  | nil => rfl
  | cons p left ih => exact ih _ _

@[simp] theorem keyCount_fill : (fill id left t right).keyCount = left.length + right.length := by
  induction left generalizing t right with
  | nil => simp [fill]
  | cons p left ih =>
    rw [fill, ih, List.length_cons, List.length_cons]
    omega

@[simp] theorem separators_fill :
    (fill id left t right).separators = (left.map Prod.fst).reverse ++ right.map Prod.fst := by
  induction left generalizing t right with
  | nil => rfl
  | cons p left ih =>
    rw [fill, ih]
    simp

@[simp] theorem children_fill :
    (fill id left t right).children =
      (left.map fun p => p.2.rootId).reverse ++ t.rootId :: right.map fun p => p.2.rootId := by
  induction left generalizing t right with
  | nil => rfl
  | cons p left ih =>
    rw [fill, ih]
    simp

theorem below_fill :
    (fill id left t right).below =
      t.cells false + (siblingCells left + siblingCells right) := by
  induction left generalizing t right with
  | nil => rw [fill, below_branch, siblingCells_nil, zero_add]
  | cons p left ih =>
    rw [fill, ih, siblingCells_cons, siblingCells_cons]
    abel

end

/-- What lies left of the marked child of a branch, in order. -/
def flatLeft (left : Siblings κ ε h) : List (Item κ ε) :=
  left.reverse.flatMap fun p => p.2.flat ++ [.separator p.1]

def flatRight (right : Siblings κ ε h) : List (Item κ ε) :=
  right.flatMap fun p => .separator p.1 :: p.2.flat

theorem flatLeft_cons (p : κ × Tree κ ε h) (left : Siblings κ ε h) :
    flatLeft (p :: left) = flatLeft left ++ (p.2.flat ++ [.separator p.1]) := by
  simp [flatLeft]

theorem flatRight_cons (p : κ × Tree κ ε h) (right : Siblings κ ε h) :
    flatRight (p :: right) = .separator p.1 :: (p.2.flat ++ flatRight right) := rfl

theorem flatRight_append (l r : Siblings κ ε h) :
    flatRight (l ++ r) = flatRight l ++ flatRight r := List.flatMap_append

theorem flat_branch (id : ℕ) (first : Tree κ ε h) (rest : Siblings κ ε h) :
    (branch id first rest).flat = first.flat ++ flatRight rest := rfl

theorem flat_fill (id : ℕ) (left : Siblings κ ε h) (t : Tree κ ε h)
    (right : Siblings κ ε h) :
    (fill id left t right).flat = flatLeft left ++ (t.flat ++ flatRight right) := by
  induction left generalizing t right with
  | nil => rfl
  | cons p left ih =>
    rw [fill, ih, flatRight_cons, flatLeft_cons]
    simp

theorem sizedBelow_branch (id : ℕ) (first : Tree κ ε h) (rest : Siblings κ ε h) :
    (branch id first rest).SizedBelow p ↔ first.Sized p ∧ ∀ q ∈ rest, q.2.Sized p := Iff.rfl

theorem sizedBelow_fill (id : ℕ) (left : Siblings κ ε h) (t : Tree κ ε h)
    (right : Siblings κ ε h) :
    (fill id left t right).SizedBelow p ↔
      t.Sized p ∧ (∀ q ∈ left, q.2.Sized p) ∧ ∀ q ∈ right, q.2.Sized p := by
  induction left generalizing t right with
  | nil => simp [fill, sizedBelow_branch]
  | cons q left ih =>
    rw [fill, ih]
    simp only [List.mem_cons, forall_eq_or_imp]
    tauto

/-- Any child of a branch can be the marked one. -/
theorem exists_fill (t : Tree κ ε (h + 1)) {i : ℕ} (hi : i ≤ t.keyCount) :
    ∃ left c right, left.length = i ∧ t = fill t.rootId left c right := by
  induction i with
  | zero =>
    obtain ⟨id, first, rest, rfl⟩ := t.exists_branch
    exact ⟨[], first, rest, rfl, rfl⟩
  | succ i ih =>
    obtain ⟨left, c, right, hlen, heq⟩ := ih (by omega)
    have hcount : t.keyCount = left.length + right.length := by
      rw [heq, keyCount_fill]
    cases right with
    | nil =>
      rw [List.length_nil] at hcount
      omega
    | cons p right => exact ⟨(p.1, c) :: left, p.2, right, by simp [hlen], heq⟩

section Cut

variable (id id' : ℕ) (first a : Tree κ ε h) (k : κ) (l r : Siblings κ ε h)

/-- A branch cut at one of its separators shows the same from left to right. -/
theorem flat_cut : (branch id first (l ++ (k, a) :: r)).flat =
    (branch id first l).flat ++ .separator k :: (branch id' a r).flat := by
  simp only [flat_branch, flatRight_append, flatRight_cons, List.append_assoc]

theorem below_cut : (branch id first (l ++ (k, a) :: r)).below =
    (branch id first l).below + (branch id' a r).below := by
  simp only [below_branch, siblingCells_append, siblingCells_cons]
  abel

theorem sizedBelow_cut : (branch id first (l ++ (k, a) :: r)).SizedBelow p ↔
    (branch id first l).SizedBelow p ∧ (branch id' a r).SizedBelow p := by
  simp only [sizedBelow_branch, List.mem_append, List.mem_cons, or_imp, forall_and, forall_eq]
  tauto

end Cut

theorem exists_cut {α : Type} {l : List α} {m : ℕ} (hm : m < l.length) :
    ∃ before x after, l = before ++ x :: after ∧ before.length = m :=
  ⟨l.take m, l[m], l.drop (m + 1), by simp, by simp; omega⟩

theorem exists_mem_below (t : Tree κ ε (h + 1)) {id : ℕ} (hid : id ∈ t.children) :
    ∃ v ≠ .free, (id, v) ∈ t.below := by
  obtain ⟨node, first, rest, rfl⟩ := t.exists_branch
  have hchild : ∀ c : Tree κ ε h, c.view false ≠ .free := by
    intro c hfree
    cases h <;> cases hfree
  rw [below_branch]
  rcases List.mem_cons.mp hid with rfl | hid
  · exact ⟨_, hchild _, Multiset.mem_add.mpr (.inl (rootId_mem_cells false first))⟩
  · obtain ⟨p, hp, rfl⟩ := List.mem_map.mp hid
    refine ⟨_, hchild p.2, Multiset.mem_add.mpr (.inr ?_)⟩
    obtain ⟨l, r, rfl⟩ : ∃ l r, rest = l ++ p :: r := List.append_of_mem hp
    rw [siblingCells_append, siblingCells_cons]
    simp [rootId_mem_cells false p.2]

/-- A tree that may stand alone: `q` limits the keys of its root, `p` those of
its other nodes. -/
def RootSized (p q : ℕ → Prop) (t : Tree κ ε h) : Prop := q t.keyCount ∧ t.SizedBelow p

end Tree

open CourseDb.BTree.Tree

/-- A tree of height `H` with a hole of height `h`. -/
inductive Ctx (κ ε : Type) : ℕ → ℕ → Type where
  | top {H : ℕ} : Ctx κ ε H H
  | frame {h H : ℕ} (id : ℕ) (left right : Siblings κ ε h) (up : Ctx κ ε (h + 1) H) :
    Ctx κ ε h H

namespace Ctx

theorem height_le (C : Ctx κ ε h H) : h ≤ H := by
  induction C with
  | top => exact le_rfl
  | frame id left right up ih => exact (Nat.le_succ _).trans ih

/-- A leaf of a tree of two levels hangs under the root. -/
theorem exists_frame (C : Ctx κ ε 0 1) : ∃ id left right, C = frame id left right top := by
  cases C with
  | frame id left right up =>
    cases up with
    | top => exact ⟨id, left, right, rfl⟩
    | frame id' left' right' up' => exact absurd up'.height_le (by omega)

theorem eq_top (C : Ctx κ ε H H) : C = top := by
  cases C with
  | top => rfl
  | frame id left right up => exact absurd up.height_le (by omega)

def isTop : Ctx κ ε h H → Bool
  | top => true
  | frame .. => false

def plug {H : ℕ} : {h : ℕ} → Ctx κ ε h H → Tree κ ε h → Tree κ ε H
  | _, top, t => t
  | _, frame id left right up, t => up.plug (fill id left t right)

/-- The root node, when the hole is filled by a tree with root node `focus`. -/
def rootId {H : ℕ} : {h : ℕ} → Ctx κ ε h H → (focus : ℕ) → ℕ
  | _, top, focus => focus
  | _, frame id _ _ up, _ => up.rootId id

theorem rootId_plug (C : Ctx κ ε h H) (t : Tree κ ε h) : (C.plug t).rootId = C.rootId t.rootId := by
  induction C with
  | top => rfl
  | frame id left right up ih => rw [plug, ih, rootId_fill, rootId]

/-- The nodes around the hole, which is filled by a tree with root node `focus`. -/
def cells {H : ℕ} : {h : ℕ} → Ctx κ ε h H → (focus : ℕ) → Cells κ ε
  | _, top, _ => 0
  | _, frame id left right up, focus =>
    {(id, .branch up.isTop ((left.map Prod.fst).reverse ++ right.map Prod.fst)
      ((left.map fun p => p.2.rootId).reverse ++ focus :: right.map fun p => p.2.rootId))} +
      (siblingCells left + siblingCells right + up.cells id)

def before {H : ℕ} : {h : ℕ} → Ctx κ ε h H → List (Item κ ε)
  | _, top => []
  | _, frame _ left _ up => up.before ++ flatLeft left

def after {H : ℕ} : {h : ℕ} → Ctx κ ε h H → List (Item κ ε)
  | _, top => []
  | _, frame _ _ right up => flatRight right ++ up.after

theorem cells_plug (C : Ctx κ ε h H) (t : Tree κ ε h) :
    (C.plug t).cells true = C.cells t.rootId + t.cells C.isTop := by
  induction C with
  | top => exact (zero_add _).symm
  | frame id left right up ih =>
    rw [plug, ih, rootId_fill, cells_eq, below_fill, cells]
    simp only [rootId_fill, separators_fill, children_fill, isTop]
    abel

theorem flat_plug (C : Ctx κ ε h H) (t : Tree κ ε h) :
    (C.plug t).flat = C.before ++ (t.flat ++ C.after) := by
  induction C with
  | top => simp [plug, before, after]
  | frame id left right up ih =>
    rw [plug, ih, flat_fill]
    simp only [before, after, List.append_assoc]

/-- The numbers of keys allowed in the root node of a tree that fills the hole. -/
def Allows (p q : ℕ → Prop) (C : Ctx κ ε h H) (n : ℕ) : Prop := if C.isTop then q n else p n

/-- The nodes around the hole have allowed numbers of keys. -/
def Sized (p q : ℕ → Prop) {H : ℕ} : {h : ℕ} → Ctx κ ε h H → Prop
  | _, top => True
  | _, frame _ left right up =>
    up.Allows p q (left.length + right.length) ∧
      ((∀ a ∈ left, a.2.Sized p) ∧ ∀ a ∈ right, a.2.Sized p) ∧ up.Sized p q

theorem rootSized_plug {q : ℕ → Prop} (C : Ctx κ ε h H) (t : Tree κ ε h) :
    (C.plug t).RootSized p q ↔ C.Sized p q ∧ C.Allows p q t.keyCount ∧ t.SizedBelow p := by
  induction C with
  | top => simp [plug, Sized, Allows, isTop, RootSized]
  | frame id left right up ih =>
    rw [plug, ih, keyCount_fill, sizedBelow_fill, Sized, Tree.Sized]
    simp only [Allows, isTop, Bool.false_eq_true, if_false]
    tauto

/-- The nodes around two neighbours have allowed numbers of keys. -/
structure SizedAround (p q : ℕ → Prop) (left right : Siblings κ ε h)
    (up : Ctx κ ε (h + 1) H) : Prop where
  count : up.Allows p q (left.length + (right.length + 1))
  left : ∀ a ∈ left, a.2.Sized p
  right : ∀ a ∈ right, a.2.Sized p
  up : up.Sized p q

section Around

variable {p q : ℕ → Prop} {id : ℕ} {left right : Siblings κ ε h} {up : Ctx κ ε (h + 1) H}
  {k : κ} {a : Tree κ ε h}

theorem sized_right_iff : (frame id left ((k, a) :: right) up).Sized p q ↔
    a.Sized p ∧ SizedAround p q left right up := by
  constructor
  · rintro ⟨hcount, ⟨hleft, hright⟩, hup⟩
    exact ⟨hright (k, a) List.mem_cons_self, hcount, hleft,
      fun b hb => hright b (List.mem_cons_of_mem _ hb), hup⟩
  · rintro ⟨ha, hcount, hleft, hright, hup⟩
    exact ⟨hcount, ⟨hleft, List.forall_mem_cons.mpr ⟨ha, hright⟩⟩, hup⟩

theorem sized_left_iff : (frame id ((k, a) :: left) right up).Sized p q ↔
    a.Sized p ∧ SizedAround p q left right up := by
  have hlength : ((k, a) :: left).length + right.length = left.length + (right.length + 1) := by
    rw [List.length_cons, Nat.add_right_comm, Nat.add_assoc]
  constructor
  · rintro ⟨hcount, ⟨hleft, hright⟩, hup⟩
    rw [hlength] at hcount
    exact ⟨hleft (k, a) List.mem_cons_self, hcount,
      fun b hb => hleft b (List.mem_cons_of_mem _ hb), hright, hup⟩
  · rintro ⟨ha, hcount, hleft, hright, hup⟩
    refine ⟨?_, ⟨List.forall_mem_cons.mpr ⟨ha, hleft⟩, hright⟩, hup⟩
    rw [hlength]
    exact hcount

end Around

/-- Replace the separator to the left of the hole, if there is one. -/
def setSeparator (k : κ) {H : ℕ} : {h : ℕ} → Ctx κ ε h H → Ctx κ ε h H
  | _, top => top
  | _, frame id [] right up => frame id [] right (up.setSeparator k)
  | _, frame id ((_, a) :: left) right up => frame id ((k, a) :: left) right up

section

variable (k : κ) (C : Ctx κ ε h H)

@[simp] theorem isTop_setSeparator : (C.setSeparator k).isTop = C.isTop := by
  cases C with
  | top => rfl
  | frame id left right up => cases left <;> rfl

@[simp] theorem rootId_setSeparator (focus : ℕ) :
    (C.setSeparator k).rootId focus = C.rootId focus := by
  induction C generalizing focus with
  | top => rfl
  | frame id left right up ih =>
    cases left with
    | nil => exact ih id
    | cons p left => rfl

@[simp] theorem after_setSeparator : (C.setSeparator k).after = C.after := by
  induction C with
  | top => rfl
  | frame id left right up ih =>
    cases left with
    | nil => rw [setSeparator, after, ih, after]
    | cons p left => rfl

/-- What comes before the hole ends with the separator that is replaced. -/
theorem before_setSeparator :
    (C.before = [] ∧ (C.setSeparator k).before = []) ∨
      ∃ b k', C.before = b ++ [.separator k'] ∧
        (C.setSeparator k).before = b ++ [.separator k] := by
  induction C with
  | top => exact .inl ⟨rfl, rfl⟩
  | frame id left right up ih =>
    cases left with
    | nil => simpa [before, setSeparator, flatLeft] using ih
    | cons p left =>
      refine .inr ⟨up.before ++ (flatLeft left ++ p.2.flat), p.1, ?_, ?_⟩
      · simp [before, flatLeft_cons]
      · simp [before, setSeparator, flatLeft_cons]

@[simp] theorem sized_setSeparator {q : ℕ → Prop} : (C.setSeparator k).Sized p q ↔ C.Sized p q := by
  induction C with
  | top => rfl
  | frame id left right up ih =>
    cases left with
    | nil => simp [setSeparator, Sized, Allows, ih]
    | cons a left => simp [setSeparator, Sized]

end

end Ctx

end CourseDb.BTree

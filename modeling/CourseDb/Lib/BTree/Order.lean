import CourseDb.Lib.BTree.Tree

/-! # Order and links in a tree read from left to right

A sequence of leaf starts, entries and separators shows a list of entries when
the keys are in order, every separator lies above the keys before it and not
above those after it, and each leaf points to the next. Inserting, deleting,
splitting, merging and moving a separator are changes of that sequence.
-/

namespace CourseDb.BTree

variable {κ ε : Type} {e : ε}

namespace Item

def entry? : Item κ ε → Option ε
  | entry e => some e
  | _ => none

def link? : Item κ ε → Option (ℕ × ℕ)
  | start id next => some (id, next)
  | _ => none

end Item

def entries (F : List (Item κ ε)) : List ε := F.filterMap Item.entry?

def links (F : List (Item κ ε)) : List (ℕ × ℕ) := F.filterMap Item.link?

section Append

variable (l r : List (Item κ ε)) (es : List ε)

@[simp] theorem entries_append : entries (l ++ r) = entries l ++ entries r := List.filterMap_append

@[simp] theorem links_append : links (l ++ r) = links l ++ links r := List.filterMap_append

@[simp] theorem entries_nil : entries ([] : List (Item κ ε)) = [] := rfl

@[simp] theorem entries_start (id next : ℕ) : entries (.start id next :: r) = entries r := rfl

@[simp] theorem entries_entry (e : ε) : entries (.entry e :: r) = e :: entries r := rfl

@[simp] theorem entries_separator (k : κ) : entries (.separator k :: r) = entries r := rfl

@[simp] theorem links_nil : links ([] : List (Item κ ε)) = [] := rfl

@[simp] theorem links_start (id next : ℕ) : links (.start id next :: r) = (id, next) :: links r := rfl

@[simp] theorem links_entry (e : ε) : links (.entry e :: r) = links r := rfl

@[simp] theorem links_separator (k : κ) : links (.separator k :: r) = links r := rfl

@[simp] theorem entries_map_entry : entries (es.map (.entry : ε → Item κ ε)) = es := by
  induction es with
  | nil => rfl
  | cons e es ih => simp [ih]

@[simp] theorem links_map_entry : links (es.map (.entry : ε → Item κ ε)) = [] := by
  induction es with
  | nil => rfl
  | cons e es ih => simp [ih]

theorem mem_entries {l : List (Item κ ε)} : e ∈ entries l ↔ .entry e ∈ l := by
  rw [entries, List.mem_filterMap]
  constructor
  · rintro ⟨x, hx, heq⟩
    cases x <;> simp_all [Item.entry?]
  · intro hx
    exact ⟨_, hx, rfl⟩

end Append

/-- The links lead from one number to another. -/
def Leads : ℕ → List (ℕ × ℕ) → ℕ → Prop
  | a, [], b => a = b
  | a, link :: l, b => a = link.1 ∧ Leads link.2 l b

theorem leads_append {a b : ℕ} {l r : List (ℕ × ℕ)} :
    Leads a (l ++ r) b ↔ ∃ c, Leads a l c ∧ Leads c r b := by
  induction l generalizing a with
  | nil => simp [Leads]
  | cons link l ih => simp [Leads, ih, and_assoc]

section Sorted

variable [LinearOrder κ] {key : ε → κ} {x : Item κ ε}

/-- An item may stand somewhere before another one. -/
def Item.Before (key : ε → κ) : Item κ ε → Item κ ε → Prop
  | .start _ _, _ => True
  | _, .start _ _ => True
  | .entry e, .entry e' => key e < key e'
  | .entry e, .separator k => key e < k
  | .separator k, .entry e => k ≤ key e
  | .separator k, .separator k' => k ≤ k'

@[simp] theorem before_start (x : Item κ ε) (id next : ℕ) : x.Before key (.start id next) := by
  cases x <;> trivial

@[simp] theorem start_before (x : Item κ ε) (id next : ℕ) :
    (Item.start id next).Before key x := trivial

def Sorted (key : ε → κ) (F : List (Item κ ε)) : Prop := F.Pairwise (Item.Before key)

theorem Sorted.insert_item {l r : List (Item κ ε)} (h : Sorted key (l ++ r))
    (hl : ∀ y ∈ l, y.Before key x) (hr : ∀ y ∈ r, x.Before key y) : Sorted key (l ++ x :: r) := by
  obtain ⟨hsl, hsr, hlr⟩ := List.pairwise_append.mp h
  refine List.pairwise_append.mpr ⟨hsl, List.pairwise_cons.mpr ⟨hr, hsr⟩, ?_⟩
  intro a ha b hb
  rcases List.mem_cons.mp hb with rfl | hb
  · exact hl a ha
  · exact hlr a ha b hb

theorem Item.Before.from_separator (h : (Item.entry e).Before key x) :
    (Item.separator (key e)).Before key x := by
  cases x with
  | start id next => trivial
  | entry e' => exact le_of_lt h
  | separator k => exact le_of_lt h

/-- A separator with the key of an entry may be put before it. -/
theorem Sorted.insert_separator {l m r : List (Item κ ε)}
    (h : Sorted key (l ++ (m ++ .entry e :: r)))
    (hm : ∀ x ∈ m, (Item.separator (key e)).Before key x) :
    Sorted key (l ++ .separator (key e) :: (m ++ .entry e :: r)) := by
  obtain ⟨-, hmr, hlr⟩ := List.pairwise_append.mp h
  obtain ⟨-, hr, -⟩ := List.pairwise_append.mp hmr
  apply h.insert_item
  · intro y hy
    have hbefore := hlr y hy (.entry e) (by simp)
    cases y <;> exact hbefore
  · intro y hy
    rcases List.mem_append.mp hy with hy | hy
    · exact hm y hy
    · rcases List.mem_cons.mp hy with rfl | hy
      · exact le_refl (key e)
      · exact ((List.pairwise_cons.mp hr).1 y hy).from_separator

theorem Sorted.sublist {F F' : List (Item κ ε)} (h : Sorted key F) (hsub : F'.Sublist F) :
    Sorted key F' := List.Pairwise.sublist hsub h

end Sorted

section Shows

variable [LinearOrder κ] {key : ε → κ} {first last : ℕ} {E : List ε} {l r : List (Item κ ε)}
  {x : List ε} {e : ε}

/-- The sequence shows the entries `E` in order, and its leaves are linked
from `first` to `last`. -/
structure Shows (key : ε → κ) (first last : ℕ) (E : List ε) (F : List (Item κ ε)) : Prop where
  sorted : Sorted key F
  entries_eq : entries F = E
  leads : Leads first (links F) last

theorem Shows.insert (h : Shows key first last E (l ++ r))
    (hl : ∀ y ∈ l, y.Before key (.entry e)) (hr : ∀ y ∈ r, (Item.entry e).Before key y) :
    Shows key first last (entries l ++ e :: entries r) (l ++ .entry e :: r) := by
  constructor
  · exact h.sorted.insert_item hl hr
  · simp
  · simpa using h.leads

theorem Shows.erase (h : Shows key first last E (l ++ .entry e :: r)) :
    Shows key first last (entries l ++ entries r) (l ++ r) := by
  constructor
  · exact h.sorted.sublist ((List.sublist_cons_self _ _).append_left l)
  · simp
  · simpa using h.leads

theorem Shows.split {i j n : ℕ}
    (h : Shows key first last E (l ++ .start i n :: (x.map .entry ++ .entry e :: r))) :
    Shows key first last E
      (l ++ .start i j :: (x.map .entry ++ .separator (key e) :: .start j n :: .entry e :: r)) := by
  obtain ⟨hsorted, rfl, hleads⟩ := h
  have hstart : Sorted key
      ((l ++ .start i j :: x.map .entry) ++ ([.start j n] ++ .entry e :: r)) := by
    apply Sorted.insert_item
    · simp only [List.append_assoc, List.cons_append]
      apply Sorted.insert_item
      · exact hsorted.sublist ((List.sublist_cons_self _ _).append_left l)
      · exact fun y _ => before_start y i j
      · exact fun y _ => start_before y i j
    · exact fun y _ => before_start y j n
    · exact fun y _ => start_before y j n
  constructor
  · have hsep := hstart.insert_separator (by simp)
    simpa using hsep
  · simp
  · simp only [links_append, links_start, links_separator, links_entry, links_map_entry,
      leads_append, Leads] at hleads ⊢
    simpa using hleads

theorem Shows.merge {i j j' n : ℕ} {k : κ}
    (h : Shows key first last E
      (l ++ .start i j :: (x.map .entry ++ .separator k :: .start j' n :: r))) :
    Shows key first last E (l ++ .start i n :: (x.map .entry ++ r)) := by
  obtain ⟨hsorted, rfl, hleads⟩ := h
  constructor
  · apply Sorted.insert_item
    · refine hsorted.sublist (List.Sublist.append_left ?_ l)
      apply List.Sublist.cons
      exact ((List.sublist_cons_self _ _).trans (List.sublist_cons_self _ _)).append_left _
    · exact fun y _ => before_start y i n
    · exact fun y _ => start_before y i n
  · simp
  · simp only [links_append, links_start, links_separator, links_map_entry, leads_append, Leads]
      at hleads ⊢
    obtain ⟨c, hc, rfl, d, rfl, rfl, hr⟩ := hleads
    exact ⟨_, hc, rfl, _, rfl, hr⟩

/-- The separator before a leaf moves up to the leaf's first entry. -/
theorem Shows.raise_separator {i n : ℕ} {k : κ}
    (h : Shows key first last E (l ++ .separator k :: .start i n :: .entry e :: r)) :
    Shows key first last E (l ++ .separator (key e) :: .start i n :: .entry e :: r) := by
  constructor
  · have hwithout : Sorted key (l ++ ([.start i n] ++ .entry e :: r)) :=
      h.sorted.sublist ((List.sublist_cons_self _ _).append_left l)
    exact hwithout.insert_separator (by simp)
  · simpa using h.entries_eq
  · simpa using h.leads

theorem Shows.setSeparator {h H : ℕ} (C : Ctx κ ε h H) {i n : ℕ}
    (hs : Shows key first last E (C.before ++ .start i n :: .entry e :: r)) :
    Shows key first last E ((C.setSeparator (key e)).before ++ .start i n :: .entry e :: r) := by
  rcases C.before_setSeparator (key e) with ⟨hb, hb'⟩ | ⟨b, k, hb, hb'⟩
  · rw [hb] at hs
    rwa [hb']
  · rw [hb, List.append_assoc] at hs
    rw [hb', List.append_assoc]
    exact hs.raise_separator

end Shows

end CourseDb.BTree

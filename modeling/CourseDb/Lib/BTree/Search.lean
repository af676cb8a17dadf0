import CourseDb.Lib.BTree.Order
import Mathlib.Data.List.TakeWhile

/-! # Searching a tree

A search for a key goes right past the separators that are not above it. What
the search passes on its way down lies on the right side of the key, so that
the leaf it arrives at decides whether the key is present.
-/

namespace CourseDb.BTree

variable {κ ε : Type} [LinearOrder κ] {key : ε → κ} {h H : ℕ} {k : κ} {es : List ε} {x : Item κ ε}

/-- The item may stand before an entry with key `k`. -/
def Item.Below (key : ε → κ) (k : κ) : Item κ ε → Prop
  | .start _ _ => True
  | .entry e => key e < k
  | .separator k' => k' ≤ k

/-- The item may stand after an entry with key `k`. -/
def Item.Above (key : ε → κ) (k : κ) : Item κ ε → Prop
  | .start _ _ => True
  | .entry e => k < key e
  | .separator k' => k < k'

theorem Item.Below.before {e : ε} (h : x.Below key (key e)) : x.Before key (.entry e) := by
  cases x <;> exact h

theorem Item.Above.after {e : ε} (h : x.Above key (key e)) : (Item.entry e).Before key x := by
  cases x <;> exact h

theorem Item.Before.below {k' : κ} (h : x.Before key (.separator k')) (hk : k' ≤ k) :
    x.Below key k := by
  cases x with
  | start id next => trivial
  | entry e => exact lt_of_lt_of_le h hk
  | separator s => exact le_trans h hk

theorem Item.Before.above {k' : κ} (h : (Item.separator k').Before key x) (hk : k < k') :
    x.Above key k := by
  cases x with
  | start id next => trivial
  | entry e => exact lt_of_lt_of_le hk h
  | separator s => exact lt_of_lt_of_le hk h

namespace Ctx

/-- A search for `k` leads to the hole. -/
def Routed (k : κ) {H : ℕ} : {h : ℕ} → Ctx κ ε h H → Prop
  | _, top => True
  | _, frame _ left right up =>
    (∀ p ∈ left, p.1 ≤ k) ∧ (∀ p ∈ right.head?, k < p.1) ∧ up.Routed k

theorem below_of_mem_flatLeft {left : Siblings κ ε h} (hs : Sorted key (Tree.flatLeft left))
    (hk : ∀ p ∈ left, p.1 ≤ k) : ∀ x ∈ Tree.flatLeft left, x.Below key k := by
  induction left with
  | nil => simp [Tree.flatLeft]
  | cons p left ih =>
    rw [Tree.flatLeft_cons] at hs ⊢
    obtain ⟨hleft, hp, -⟩ := List.pairwise_append.mp hs
    obtain ⟨-, -, hsep⟩ := List.pairwise_append.mp hp
    have hpk : p.1 ≤ k := hk p List.mem_cons_self
    intro x hx
    simp only [List.mem_append, List.mem_singleton] at hx
    rcases hx with hx | hx | rfl
    · exact ih hleft (fun q hq => hk q (List.mem_cons_of_mem _ hq)) x hx
    · exact (hsep x hx _ (List.mem_singleton_self _)).below hpk
    · exact hpk

theorem above_of_mem_flatRight {right : Siblings κ ε h}
    (hs : Sorted key (Tree.flatRight right)) (hk : ∀ p ∈ right.head?, k < p.1) :
    ∀ x ∈ Tree.flatRight right, x.Above key k := by
  cases right with
  | nil => simp [Tree.flatRight]
  | cons p right =>
    have hpk : k < p.1 := hk p rfl
    rw [Tree.flatRight_cons] at hs ⊢
    intro x hx
    rcases List.mem_cons.mp hx with rfl | hx
    · exact hpk
    · exact ((List.pairwise_cons.mp hs).1 x hx).above hpk

/-- What a search passes lies on the right side of its key. -/
theorem Routed.bounds {C : Ctx κ ε h H} (hC : C.Routed k) {M : List (Item κ ε)}
    (hs : Sorted key (C.before ++ (M ++ C.after))) :
    (∀ x ∈ C.before, x.Below key k) ∧ ∀ x ∈ C.after, x.Above key k := by
  induction C generalizing M with
  | top => simp [before, after]
  | frame id left right up ih =>
    obtain ⟨hleft, hright, hup⟩ := hC
    have hs' : Sorted key
        (up.before ++ ((Tree.flatLeft left ++ (M ++ Tree.flatRight right)) ++ up.after)) := by
      simpa [before, after] using hs
    obtain ⟨hbefore, hafter⟩ := ih hup hs'
    obtain ⟨-, hmid, -⟩ := List.pairwise_append.mp hs'
    obtain ⟨hmid, -, -⟩ := List.pairwise_append.mp hmid
    obtain ⟨hl, hmr, -⟩ := List.pairwise_append.mp hmid
    obtain ⟨-, hr, -⟩ := List.pairwise_append.mp hmr
    constructor
    · intro x hx
      rcases List.mem_append.mp hx with hx | hx
      · exact hbefore x hx
      · exact below_of_mem_flatLeft hl hleft x hx
    · intro x hx
      rcases List.mem_append.mp hx with hx | hx
      · exact above_of_mem_flatRight hr hright x hx
      · exact hafter x hx

end Ctx

def lookup (key : ε → κ) (E : List ε) (k : κ) : Option ε := E.find? fun e => key e = k

section Lookup

variable {x y : List ε} {e : ε}

theorem lookup_eq_none (hx : ∀ e' ∈ x, key e' ≠ k) : lookup key x k = none := by
  apply List.find?_eq_none.mpr
  intro e' he
  simpa using hx e' he

theorem lookup_insert (hx : ∀ e' ∈ x, key e' ≠ key e) :
    lookup key (x ++ e :: y) = Function.update (lookup key (x ++ y)) (key e) (some e) := by
  funext k
  by_cases hk : k = key e
  · subst hk
    rw [Function.update_self, lookup, List.find?_append]
    have hnone : x.find? (fun e' => key e' = key e) = none := lookup_eq_none hx
    simp [hnone]
  · rw [Function.update_of_ne hk]
    have hne : ¬ key e = k := fun heq => hk heq.symm
    simp [lookup, List.find?_append, hne]

theorem lookup_erase (hx : ∀ e' ∈ x, key e' ≠ key e) (hy : ∀ e' ∈ y, key e' ≠ key e) :
    lookup key (x ++ y) = Function.update (lookup key (x ++ e :: y)) (key e) none := by
  rw [lookup_insert hx, Function.update_idem]
  have hnone : lookup key (x ++ y) (key e) = none := by
    apply lookup_eq_none
    intro e' he
    rcases List.mem_append.mp he with he | he
    exacts [hx e' he, hy e' he]
  rw [← hnone, Function.update_eq_self]

end Lookup

theorem sorted_map_entry :
    Sorted key (es.map (.entry : ε → Item κ ε)) ↔ es.Pairwise fun a b => key a < key b := by
  rw [Sorted, List.pairwise_map]
  rfl

theorem exists_position (hs : es.Pairwise fun a b => key a < key b) (k : κ) :
    ∃ x y, es = x ++ y ∧ x = es.takeWhile (fun e => key e < k) ∧ (∀ e ∈ x, key e < k) ∧
      (∀ e ∈ y, k ≤ key e) ∧ ∀ e ∈ y.tail, k < key e := by
  refine ⟨es.takeWhile fun e => key e < k, es.dropWhile fun e => key e < k,
    List.takeWhile_append_dropWhile.symm, rfl, ?_, ?_⟩
  · intro e he
    simpa using List.mem_takeWhile_imp he
  · have hsorted : (es.dropWhile fun e => key e < k).Pairwise fun a b => key a < key b :=
      hs.sublist (List.dropWhile_sublist _)
    cases hy : es.dropWhile fun e => key e < k with
    | nil => simp
    | cons e y =>
      have hhead : k ≤ key e := by
        have hnot := List.head_dropWhile_not (p := fun e => decide (key e < k))
          (w := by rw [hy]; simp)
        simpa [hy] using hnot
      rw [hy, List.pairwise_cons] at hsorted
      constructor
      · intro e' he
        rcases List.mem_cons.mp he with rfl | he
        · exact hhead
        · exact hhead.trans (hsorted.1 e' he).le
      · intro e' he
        exact lt_of_le_of_lt hhead (hsorted.1 e' he)

theorem Shows.leaf_sorted {l r : List (Item κ ε)} {first last : ℕ} {E : List ε} {i n : ℕ}
    (hs : Shows key first last E (l ++ ((.start i n :: es.map .entry) ++ r))) :
    es.Pairwise fun a b => key a < key b := by
  have hsub : (es.map (.entry : ε → Item κ ε)).Sublist
      (l ++ ((.start i n :: es.map .entry) ++ r)) :=
    ((List.sublist_cons_self _ _).trans (List.sublist_append_left _ _)).trans
      (List.sublist_append_right _ _)
  exact sorted_map_entry.mp (hs.sorted.sublist hsub)

/-- The leaf at the end of a search decides whether the key is present. -/
theorem lookup_of_routed {C : Ctx κ ε 0 H} {first last : ℕ} {E : List ε} {i n : ℕ} (hC : C.Routed k)
    (hs : Shows key first last E (C.before ++ ((.start i n :: es.map .entry) ++ C.after))) :
    lookup key E k = lookup key es k := by
  obtain ⟨hbefore, hafter⟩ := hC.bounds hs.sorted
  have hl : lookup key (entries C.before) k = none :=
    lookup_eq_none fun e he => ne_of_lt (hbefore _ (mem_entries.mp he))
  have hr : lookup key (entries C.after) k = none :=
    lookup_eq_none fun e he => ne_of_gt (hafter _ (mem_entries.mp he))
  have hE : E = entries C.before ++ (es ++ entries C.after) := by
    rw [← hs.entries_eq]
    simp
  rw [hE]
  simp only [lookup, List.find?_append] at hl hr ⊢
  rw [hl, hr]
  simp

section Routed

variable {C : Ctx κ ε 0 H} {first last : ℕ} {E x y : List ε} {e : ε} {i n : ℕ}

/-- An absent key may be put in at its place in the leaf where its search ends. -/
theorem Shows.insert_routed (hC : C.Routed (key e))
    (hs : Shows key first last E (C.before ++ ((.start i n :: (x ++ y).map .entry) ++ C.after)))
    (hx : ∀ e' ∈ x, key e' < key e) (hy : ∀ e' ∈ y, key e < key e') :
    ∃ E', Shows key first last E' (C.before ++ ((.start i n :: (x ++ e :: y).map .entry) ++ C.after)) ∧
      lookup key E' = Function.update (lookup key E) (key e) (some e) := by
  obtain ⟨hbefore, hafter⟩ := hC.bounds hs.sorted
  have hs' : Shows key first last E
      ((C.before ++ .start i n :: x.map .entry) ++ (y.map .entry ++ C.after)) := by
    simpa using hs
  have hinsert := hs'.insert (e := e)
    (by
      intro z hz
      simp only [List.mem_append, List.mem_cons, List.mem_map] at hz
      rcases hz with hz | rfl | ⟨e', he', rfl⟩
      · exact (hbefore z hz).before
      · exact start_before _ _ _
      · exact hx e' he')
    (by
      intro z hz
      simp only [List.mem_append, List.mem_map] at hz
      rcases hz with ⟨e', he', rfl⟩ | hz
      · exact hy e' he'
      · exact (hafter z hz).after)
  refine ⟨entries C.before ++ x ++ e :: (y ++ entries C.after), ?_, ?_⟩
  · simpa using hinsert
  · have hE : E = entries C.before ++ x ++ (y ++ entries C.after) := by
      rw [← hs.entries_eq]
      simp
    rw [hE]
    apply lookup_insert
    intro e' he'
    rcases List.mem_append.mp he' with he' | he'
    · exact ne_of_lt (hbefore _ (mem_entries.mp he'))
    · exact ne_of_lt (hx e' he')

/-- A key may be taken out of the leaf where its search ends. -/
theorem Shows.erase_routed (hC : C.Routed (key e))
    (hs : Shows key first last E (C.before ++ ((.start i n :: (x ++ e :: y).map .entry) ++ C.after))) :
    ∃ E', Shows key first last E' (C.before ++ ((.start i n :: (x ++ y).map .entry) ++ C.after)) ∧
      lookup key E' = Function.update (lookup key E) (key e) none := by
  obtain ⟨hbefore, hafter⟩ := hC.bounds hs.sorted
  have hs' : Shows key first last E
      ((C.before ++ .start i n :: x.map .entry) ++ .entry e :: (y.map .entry ++ C.after)) := by
    simpa using hs
  have hxy : (∀ e' ∈ x, key e' < key e) ∧ ∀ e' ∈ y, key e < key e' := by
    obtain ⟨-, hey, hxe⟩ := List.pairwise_append.mp hs'.sorted
    constructor
    · intro e' he'
      exact hxe (.entry e') (by simp [he']) (.entry e) List.mem_cons_self
    · intro e' he'
      exact (List.pairwise_cons.mp hey).1 (.entry e') (by simp [he'])
  refine ⟨entries C.before ++ x ++ (y ++ entries C.after), by simpa using hs'.erase, ?_⟩
  have hE : E = entries C.before ++ x ++ e :: (y ++ entries C.after) := by
    rw [← hs.entries_eq]
    simp
  rw [hE]
  apply lookup_erase
  · intro e' he'
    rcases List.mem_append.mp he' with he' | he'
    · exact ne_of_lt (hbefore _ (mem_entries.mp he'))
    · exact ne_of_lt (hxy.1 e' he')
  · intro e' he'
    rcases List.mem_append.mp he' with he' | he'
    · exact ne_of_gt (hxy.2 e' he')
    · exact ne_of_gt (hafter _ (mem_entries.mp he'))

end Routed

end CourseDb.BTree

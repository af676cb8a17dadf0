import Mathlib.Algebra.BigOperators.Group.Finset.Basic
import Mathlib.Data.Finset.Lattice.Fold
import Mathlib.Tactic

/-! # Counting by key

Elements with a property are counted for each of their keys. A list that counts
some of the keys, and leaves out only keys without elements, gives the counts
over all of them.
-/

namespace CourseDb.Tally

variable {α κ : Type} [DecidableEq κ]

section Counts

variable (key : α → κ) (p : α → Bool) (xs : List α)

/-- The elements with the property and this key. -/
def countAt (k : κ) : ℕ := xs.countP fun x => p x && decide (key x = k)

/-- The elements with the property and one of these keys. -/
def countIn (S : Finset κ) : ℕ := xs.countP fun x => p x && decide (key x ∈ S)

theorem countAt_le (k : κ) : countAt key p xs k ≤ xs.countP p :=
  List.countP_mono_left fun _ _ h => (Bool.and_eq_true_iff.mp h).1

theorem countIn_le (S : Finset κ) : countIn key p xs S ≤ xs.countP p :=
  List.countP_mono_left fun _ _ h => (Bool.and_eq_true_iff.mp h).1

theorem countAt_append_singleton (x : α) (k : κ) :
    countAt key p (xs ++ [x]) k =
      countAt key p xs k + if p x = true ∧ key x = k then 1 else 0 := by
  rw [countAt, List.countP_append, List.countP_singleton, ← countAt]
  simp [Bool.and_eq_true]

theorem countIn_eq_sum (S : Finset κ) : countIn key p xs S = ∑ k ∈ S, countAt key p xs k := by
  induction xs with
  | nil => simp [countIn, countAt]
  | cons x xs ih =>
    simp only [countIn, countAt, List.countP_cons, Finset.sum_add_distrib] at ih ⊢
    rw [ih]
    congr 1
    by_cases hp : p x = true <;> simp [hp]

variable {key p xs} in
theorem countAt_mono {q : α → Bool} (h : ∀ x, q x = true → p x = true) (k : κ) :
    countAt key q xs k ≤ countAt key p xs k := by
  refine List.countP_mono_left fun x _ hx => ?_
  rw [Bool.and_eq_true_iff] at hx ⊢
  exact ⟨h x hx.1, hx.2⟩

end Counts

section Lists

variable {f : κ → ℕ} {ks : List κ} {S : Finset κ}

/-- A list without repetitions that leaves out only zeros gives the sum. -/
theorem sum_map_eq_sum (hnodup : ks.Nodup) (hmem : ∀ k ∈ ks, k ∈ S)
    (hzero : ∀ k ∈ S, k ∉ ks → f k = 0) : (ks.map f).sum = ∑ k ∈ S, f k := by
  rw [← List.sum_toFinset f hnodup]
  refine Finset.sum_subset (fun k hk => hmem k (List.mem_toFinset.mp hk)) fun k hk hnot => ?_
  exact hzero k hk fun h => hnot (List.mem_toFinset.mpr h)

theorem foldl_max_le_iff {l : List ℕ} {a b : ℕ} :
    l.foldl max a ≤ b ↔ a ≤ b ∧ ∀ x ∈ l, x ≤ b := by
  induction l generalizing a with
  | nil => simp
  | cons x l ih => simp [ih, and_assoc]

/-- A list that leaves out only zeros gives the maximum. -/
theorem foldl_max_map_eq_sup (hmem : ∀ k ∈ ks, k ∈ S) (hzero : ∀ k ∈ S, k ∉ ks → f k = 0) :
    (ks.map f).foldl max 0 = S.sup f := by
  apply le_antisymm
  · refine foldl_max_le_iff.mpr ⟨Nat.zero_le _, ?_⟩
    intro x hx
    obtain ⟨k, hk, rfl⟩ := List.mem_map.mp hx
    exact Finset.le_sup (hmem k hk)
  · refine Finset.sup_le fun k hk => ?_
    by_cases hin : k ∈ ks
    · exact (foldl_max_le_iff.mp le_rfl).2 _ (List.mem_map_of_mem hin)
    · rw [hzero k hk hin]
      exact Nat.zero_le _

end Lists

/-- In a list whose elements with the property come first, dropping them is filtering. -/
theorem dropWhile_eq_filter {p : α → Bool} {l : List α}
    (h : l.Pairwise fun x y => p y = true → p x = true) :
    l.dropWhile p = l.filter fun x => !p x := by
  induction l with
  | nil => rfl
  | cons x l ih =>
    obtain ⟨hx, hl⟩ := List.pairwise_cons.mp h
    by_cases hp : p x = true
    · simp [hp, ih hl]
    · have hrest : l.filter (fun y => !p y) = l := by
        refine List.filter_eq_self.mpr fun y hy => ?_
        simpa using fun hy' => hp (hx y hy hy')
      simp [hp, hrest]

end CourseDb.Tally

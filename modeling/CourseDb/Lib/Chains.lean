import Mathlib.Combinatorics.Pigeonhole
import Mathlib.Tactic

/-! # Following links

An element may have a successor. If only finitely many elements have one, then
following the successors goes on for ever exactly if it comes round to an
element a second time.
-/

namespace CourseDb.Chains

variable {α : Type} {next : α → Option α} {a b : α} {m n : ℕ} {S : Finset α}

/-- The element that is `n` links away. -/
def walk (next : α → Option α) : ℕ → α → Option α
  | 0, a => some a
  | n + 1, a => (next a).bind (walk next n)

def Reaches (next : α → Option α) (a b : α) : Prop := ∃ n, walk next n a = some b

/-- The chain from here leads to an element from which it leads back. -/
def Loops (next : α → Option α) (a : α) : Prop :=
  ∃ b n, Reaches next a b ∧ walk next (n + 1) b = some b

theorem walk_add (m n : ℕ) (a : α) : walk next (m + n) a = (walk next m a).bind (walk next n) := by
  induction m generalizing a with
  | zero =>
    rw [Nat.zero_add]
    rfl
  | succ m ih =>
    rw [Nat.add_right_comm, walk, walk, Option.bind_assoc]
    simp only [ih]

theorem Reaches.refl (a : α) : Reaches next a a := ⟨0, rfl⟩

theorem Reaches.step (h : next a = some b) {c : α} (hb : Reaches next b c) : Reaches next a c := by
  obtain ⟨n, hn⟩ := hb
  refine ⟨n + 1, ?_⟩
  rw [walk, h]
  exact hn

theorem isSome_of_le (hle : m ≤ n) (h : (walk next n a).isSome) : (walk next m a).isSome := by
  obtain ⟨k, rfl⟩ := Nat.exists_eq_add_of_le hle
  rw [walk_add] at h
  exact Option.isSome_of_isSome_bind h

/-- From an element of a loop the chain never ends. -/
theorem isSome_of_walk_eq (h : walk next (m + 1) b = some b) (n : ℕ) :
    (walk next n b).isSome := by
  have hrounds (k : ℕ) : walk next (k * (m + 1)) b = some b := by
    induction k with
    | zero =>
      rw [Nat.zero_mul]
      rfl
    | succ k ih => rw [Nat.succ_mul, walk_add, ih, Option.bind_some, h]
  have hlong : (walk next (n * (m + 1)) b).isSome := by
    rw [hrounds]
    rfl
  exact isSome_of_le (Nat.le_mul_of_pos_right n m.succ_pos) hlong

theorem Loops.isSome (h : Loops next a) (n : ℕ) : (walk next n a).isSome := by
  obtain ⟨b, k, ⟨m, hm⟩, hloop⟩ := h
  have hfar : (walk next (m + n) a).isSome := by
    rw [walk_add, hm]
    exact isSome_of_walk_eq hloop n
  exact isSome_of_le (Nat.le_add_left n m) hfar

/-- A chain that is longer than the number of elements with a successor has come round. -/
theorem loops_of_isSome (hS : ∀ x, (next x).isSome → x ∈ S) (h : (walk next (S.card + 1) a).isSome) :
    Loops next a := by
  have hsome {i : ℕ} (hi : i < S.card + 1) :
      ∃ x, walk next i a = some x ∧ (next x).isSome := by
    have hsucc := isSome_of_le (Nat.succ_le_of_lt hi) h
    rw [Nat.succ_eq_add_one, walk_add] at hsucc
    obtain ⟨x, hx⟩ := Option.isSome_iff_exists.mp (Option.isSome_of_isSome_bind hsucc)
    refine ⟨x, hx, ?_⟩
    rw [hx, Option.bind_some, walk] at hsucc
    exact Option.isSome_of_isSome_bind hsucc
  have hmaps : ∀ i ∈ Finset.range (S.card + 1), (walk next i a).getD a ∈ S := by
    intro i hi
    obtain ⟨x, hx, hnext⟩ := hsome (Finset.mem_range.mp hi)
    rw [hx]
    exact hS x hnext
  have hcard : S.card < (Finset.range (S.card + 1)).card := by
    rw [Finset.card_range]
    exact Nat.lt_succ_self _
  obtain ⟨i, hi, j, hj, hne, heq⟩ := Finset.exists_ne_map_eq_of_card_lt_of_maps_to hcard hmaps
  wlog hlt : i < j generalizing i j
  · exact this j hj i hi hne.symm heq.symm (by omega)
  -- the chain is at the same element after `i` links and after `j`
  obtain ⟨x, hx, -⟩ := hsome (Finset.mem_range.mp hi)
  obtain ⟨y, hy, -⟩ := hsome (Finset.mem_range.mp hj)
  obtain rfl : x = y := by simpa [hx, hy] using heq
  refine ⟨x, j - i - 1, ⟨i, hx⟩, ?_⟩
  rw [show j = i + (j - i - 1 + 1) by omega, walk_add, hx, Option.bind_some] at hy
  exact hy

theorem Loops.next_ne_none (h : Loops next a) (hb : Reaches next a b) : next b ≠ none := by
  intro hend
  obtain ⟨n, hn⟩ := hb
  have hsome := h.isSome (n + 1)
  rw [walk_add, hn, Option.bind_some, walk, hend] at hsome
  cases hsome

theorem Reaches.end_unique {c : α} (hb : Reaches next a b) (hb' : next b = none)
    (hc : Reaches next a c) (hc' : next c = none) : b = c := by
  obtain ⟨m, hm⟩ := hb
  obtain ⟨n, hn⟩ := hc
  wlog hle : m ≤ n generalizing m n b c
  · exact (this hc' hb' n hn m hm (by omega)).symm
  obtain ⟨k, rfl⟩ := Nat.exists_eq_add_of_le hle
  rw [walk_add, hm, Option.bind_some] at hn
  cases k with
  | zero => exact Option.some.inj hn
  | succ k =>
    rw [walk, hb'] at hn
    cases hn

theorem isSome_iff_loops (hS : ∀ x, (next x).isSome → x ∈ S) :
    (walk next (S.card + 1) a).isSome ↔ Loops next a :=
  ⟨loops_of_isSome hS, fun h => h.isSome _⟩

end CourseDb.Chains

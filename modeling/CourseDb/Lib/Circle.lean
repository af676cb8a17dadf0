import Mathlib.Tactic

/-! # Points on a circle

Positions `0, …, N - 1` in clockwise order, where the first follows the last. Of
the points of a ring, the first one at or after a position is the nearest in
clockwise direction. Being the nearest is a property of the set of points, so
that it is easy to follow when points come and go.
-/

namespace CourseDb.Circle

variable {α : Type} {N h : ℕ} {ring ring' : List (ℕ × α)} {p q : ℕ × α}

/-- How far it is clockwise from `h` to `p`. -/
def distance (N h p : ℕ) : ℕ := (p + N - h) % N

theorem distance_of_le {p : ℕ} (hp : p < N) (hle : h ≤ p) : distance N h p = p - h := by
  rw [distance, show p + N - h = p - h + N by omega, Nat.add_mod_right, Nat.mod_eq_of_lt (by omega)]

theorem distance_of_lt {p : ℕ} (hh : h < N) (hlt : p < h) : distance N h p = p + N - h := by
  rw [distance, Nat.mod_eq_of_lt (by omega)]

theorem distance_self (N h : ℕ) : distance N h h = 0 := by
  rw [distance, Nat.add_sub_cancel_left, Nat.mod_self]

/-- The points of the ring in ascending order, one at each of their positions. -/
structure Ascending (N : ℕ) (ring : List (ℕ × α)) : Prop where
  pairwise : ring.Pairwise fun p q => p.1 < q.1
  lt : ∀ p ∈ ring, p.1 < N

/-- No point of the ring is nearer to `h` than `p`. -/
structure IsNearest (N h : ℕ) (ring : List (ℕ × α)) (p : ℕ × α) : Prop where
  mem : p ∈ ring
  le : ∀ q ∈ ring, distance N h p.1 ≤ distance N h q.1

namespace IsNearest

theorem of_find (hring : Ascending N ring) (hh : h < N)
    (hfind : ring.find? (fun p => h ≤ p.1) = some p) : IsNearest N h ring p := by
  obtain ⟨hge, before, after, rfl, hbefore⟩ := List.find?_eq_some_iff_append.mp hfind
  rw [decide_eq_true_eq] at hge
  refine ⟨by simp, fun q hq => ?_⟩
  have hp := hring.lt p (by simp)
  have hqN := hring.lt q hq
  rw [distance_of_le hp hge]
  rcases List.mem_append.mp hq with hq | hq
  · -- the points before `p` lie before `h`
    have hlt : q.1 < h := by simpa using hbefore q hq
    rw [distance_of_lt hh hlt]
    omega
  · have hpq : p.1 ≤ q.1 := by
      rcases List.mem_cons.mp hq with rfl | hq
      · exact le_rfl
      · have hafter := (List.pairwise_append.mp hring.pairwise).2.1
        exact ((List.pairwise_cons.mp hafter).1 q hq).le
    rw [distance_of_le hqN (hge.trans hpq)]
    omega

theorem of_head {rest : List (ℕ × α)} (hring : Ascending N (p :: rest)) (hh : h < N)
    (hfind : (p :: rest).find? (fun p => h ≤ p.1) = none) : IsNearest N h (p :: rest) p := by
  have hbefore : ∀ q ∈ p :: rest, q.1 < h := by simpa using hfind
  refine ⟨by simp, fun q hq => ?_⟩
  rw [distance_of_lt hh (hbefore p (by simp)), distance_of_lt hh (hbefore q hq)]
  rcases List.mem_cons.mp hq with rfl | hq
  · exact le_rfl
  · have hlt := (List.pairwise_cons.mp hring.pairwise).1 q hq
    omega

section

variable (hring : Ascending N ring) (hh : h < N) (hp : IsNearest N h ring p)
  (hq : IsNearest N h ring q)
include hring hh hp hq

theorem position_eq : p.1 = q.1 := by
  have hpN := hring.lt p hp.mem
  have hqN := hring.lt q hq.mem
  have heq : distance N h p.1 = distance N h q.1 := le_antisymm (hp.le q hq.mem) (hq.le p hp.mem)
  rcases Nat.lt_or_ge p.1 h with hplt | hpge <;> rcases Nat.lt_or_ge q.1 h with hqlt | hqge
  · rw [distance_of_lt hh hplt, distance_of_lt hh hqlt] at heq
    omega
  · rw [distance_of_lt hh hplt, distance_of_le hqN hqge] at heq
    omega
  · rw [distance_of_le hpN hpge, distance_of_lt hh hqlt] at heq
    omega
  · rw [distance_of_le hpN hpge, distance_of_le hqN hqge] at heq
    omega

theorem unique : p = q := by
  have hposition := position_eq hring hh hp hq
  by_contra hne
  have hsorted := List.pairwise_iff_getElem.mp hring.pairwise
  obtain ⟨i, hi, rfl⟩ := List.mem_iff_getElem.mp hp.mem
  obtain ⟨j, hj, rfl⟩ := List.mem_iff_getElem.mp hq.mem
  rcases lt_trichotomy i j with hij | rfl | hij
  · have := hsorted i j hi hj hij
    omega
  · exact hne rfl
  · have := hsorted j i hj hi hij
    omega

end

theorem subset (hp : IsNearest N h ring p) (hsub : ∀ q ∈ ring', q ∈ ring) (hmem : p ∈ ring') :
    IsNearest N h ring' p :=
  ⟨hmem, fun q hq => hp.le q (hsub q hq)⟩

end IsNearest

end CourseDb.Circle

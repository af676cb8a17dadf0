import Mathlib.Logic.Function.Basic
import Mathlib.Tactic

/-! # A unique index on a table

A table is a partial map from ids to rows, and an index a partial map from keys
to ids. The index belongs to the table if it leads from the key of each row that
has one to the id of that row, and from no other key to any id. Then no two rows
share a key, and the table determines the index.
-/

namespace CourseDb

open Function (update update_self update_of_ne)

variable {ι τ κ : Type}

/-- `m` leads from exactly the keys of the rows to the ids of these rows. -/
def Indexes (keyOf : τ → Option κ) (rows : ι → Option τ) (m : κ → Option ι) : Prop :=
  ∀ k r, m k = some r ↔ ∃ t, rows r = some t ∧ keyOf t = some k

namespace Indexes

variable {keyOf : τ → Option κ} {rows rows' : ι → Option τ} {m m' : κ → Option ι} {r r' : ι}
  {t t' : τ} {k : κ}

theorem empty : Indexes keyOf (fun _ : ι => none) (fun _ => none) := by
  intro k r
  simp

theorem lookup (h : Indexes keyOf rows m) (hrow : rows r = some t) (hkey : keyOf t = some k) :
    m k = some r :=
  (h k r).mpr ⟨t, hrow, hkey⟩

theorem id_unique (h : Indexes keyOf rows m) (hrow : rows r = some t) (hrow' : rows r' = some t')
    (hkey : keyOf t = some k) (hkey' : keyOf t' = some k) : r = r' :=
  Option.some.inj ((h.lookup hrow hkey).symm.trans (h.lookup hrow' hkey'))

theorem unique (h : Indexes keyOf rows m) (h' : Indexes keyOf rows m') : m = m' := by
  funext k
  apply Option.ext
  intro r
  rw [h k r, h' k r]

section Changes

variable {after : Option τ}

theorem iff_bind (h : Indexes keyOf rows m) : m k = some r ↔ (rows r).bind keyOf = some k := by
  rw [h k r]
  exact Option.bind_eq_some_iff.symm

theorem of_iff_bind (h : ∀ k r, m k = some r ↔ (rows r).bind keyOf = some k) :
    Indexes keyOf rows m := by
  intro k r
  rw [h k r]
  exact Option.bind_eq_some_iff

variable [DecidableEq ι]

theorem keep (h : Indexes keyOf rows m) (hkey : after.bind keyOf = (rows r).bind keyOf) :
    Indexes keyOf (update rows r after) m := by
  apply of_iff_bind
  intro k r'
  rw [h.iff_bind]
  by_cases hr : r' = r
  · rw [hr, update_self, hkey]
  · rw [update_of_ne hr]

/-- The key that a row had is free once the row has another one or none. -/
theorem free_of_update (h : Indexes keyOf rows m) (hkey : (rows r).bind keyOf = some k)
    (h' : Indexes keyOf (update rows r after) m') (hafter : after.bind keyOf ≠ some k) :
    m' k = none := by
  rw [Option.eq_none_iff_forall_not_mem]
  intro r' hr'
  have hfound := h'.iff_bind.mp hr'
  by_cases hr : r' = r
  · rw [hr, update_self] at hfound
    exact hafter hfound
  · rw [update_of_ne hr] at hfound
    exact hr (Option.some.inj ((h.iff_bind.mpr hfound).symm.trans (h.iff_bind.mpr hkey)))

variable [DecidableEq κ]

theorem add (h : Indexes keyOf rows m) (hbefore : (rows r).bind keyOf = none)
    (hafter : after.bind keyOf = some k) (hfree : m k = none) :
    Indexes keyOf (update rows r after) (update m k (some r)) := by
  apply of_iff_bind
  intro k' r'
  by_cases hk : k' = k
  · subst hk
    rw [update_self, Option.some.injEq]
    by_cases hr : r' = r
    · rw [hr, update_self, hafter]
      simp
    · have hnone : (rows r').bind keyOf ≠ some k' := fun hfound => by
        rw [h.iff_bind.mpr hfound] at hfree
        cases hfree
      rw [update_of_ne hr]
      exact iff_of_false (Ne.symm hr) hnone
  · rw [update_of_ne hk, h.iff_bind]
    by_cases hr : r' = r
    · rw [hr, update_self, hafter, hbefore]
      simp [Ne.symm hk]
    · rw [update_of_ne hr]

theorem drop (h : Indexes keyOf rows m) (hbefore : (rows r).bind keyOf = some k)
    (hafter : after.bind keyOf = none) :
    Indexes keyOf (update rows r after) (update m k none) := by
  apply of_iff_bind
  intro k' r'
  by_cases hk : k' = k
  · subst hk
    rw [update_self]
    by_cases hr : r' = r
    · rw [hr, update_self, hafter]
      simp
    · have hnone : (rows r').bind keyOf ≠ some k' := fun hfound =>
        hr (Option.some.inj ((h.iff_bind.mpr hfound).symm.trans (h.iff_bind.mpr hbefore)))
      rw [update_of_ne hr]
      exact iff_of_false (fun hsome => by cases hsome) hnone
  · rw [update_of_ne hk, h.iff_bind]
    by_cases hr : r' = r
    · rw [hr, update_self, hafter, hbefore]
      simp [Ne.symm hk]
    · rw [update_of_ne hr]

end Changes

end Indexes

end CourseDb

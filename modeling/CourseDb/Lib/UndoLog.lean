import CourseDb.Lib.Fallible

/-! # Undoing a log

A log has a record for each step that was made, and the steps are undone one
after the other, the last one first. Whether a record can be undone depends on
the state only up to a relation: what works in one state works in every state
that looks the same.
-/

namespace CourseDb

variable {σ ρ ε : Type} {Same : σ → σ → Prop} {undo : ρ → Fallible ε σ Unit} {s s' t u : σ}
  {r : ρ} {rs rs' : List ρ}

/-- Work through the records, one after the other. -/
def undoAll (undo : ρ → Fallible ε σ Unit) : List ρ → Fallible ε σ Unit
  | [] => return ()
  | r :: rs => do
    undo r
    undoAll undo rs

/-- Undoing the records leads from every state that looks like `s` to one that looks like `t`. -/
inductive Undoes (Same : σ → σ → Prop) (undo : ρ → Fallible ε σ Unit) : List ρ → σ → σ → Prop where
  | nil {s t : σ} (same : Same t s) : Undoes Same undo [] s t
  | cons {s s₁ t : σ} {r : ρ} {rs : List ρ}
      (first : ∀ u, Same s u → ∃ u', undo r u = (.ok (), u') ∧ Same s₁ u')
      (rest : Undoes Same undo rs s₁ t) : Undoes Same undo (r :: rs) s t

namespace Undoes

variable [IsTrans σ Same]

theorem mono (h : Undoes Same undo rs s t) (hsame : Same s s') : Undoes Same undo rs s' t := by
  cases h with
  | nil same => exact .nil (Trans.trans same hsame)
  | cons first rest => exact .cons (fun u hu => first u (Trans.trans hsame hu)) rest

theorem append (h : Undoes Same undo rs s s') (h' : Undoes Same undo rs' s' t) :
    Undoes Same undo (rs ++ rs') s t := by
  induction h with
  | nil same => exact h'.mono same
  | cons first _ ih => exact .cons first (ih h')

/-- After the first records have been undone, the others can still be. -/
theorem run_append (h : Undoes Same undo (rs ++ rs') s t) (hu : Same s u) :
    ∃ u', undoAll undo rs u = (.ok (), u') ∧ Undoes Same undo rs' u' t := by
  induction rs generalizing s u with
  | nil => exact ⟨u, rfl, h.mono hu⟩
  | cons r rs ih =>
    cases h with
    | cons first rest =>
      obtain ⟨u₁, hfirst, hsame⟩ := first u hu
      obtain ⟨u', hrest, hundoes⟩ := ih rest hsame
      exact ⟨u', (Fallible.bind_ok hfirst).trans hrest, hundoes⟩

theorem run (h : Undoes Same undo rs s t) (hu : Same s u) :
    ∃ u', undoAll undo rs u = (.ok (), u') ∧ Same t u' := by
  rw [← List.append_nil rs] at h
  obtain ⟨u', hrun, hundoes⟩ := h.run_append hu
  cases hundoes with
  | nil same => exact ⟨u', hrun, same⟩

end Undoes

/-- Of records in the order of their times, those after `ts` come last. -/
theorem suffix_of_sorted {time : ρ → ℤ} (h : rs.Pairwise fun r r' => time r ≤ time r') (ts : ℤ) :
    rs.filter (fun r => ts < time r) <:+ rs := by
  induction rs with
  | nil => exact List.suffix_rfl
  | cons r rs ih =>
    obtain ⟨hfirst, hrest⟩ := List.pairwise_cons.mp h
    by_cases hr : ts < time r
    · have hall : ∀ r' ∈ rs, ts < time r' := fun r' hmem => hr.trans_le (hfirst r' hmem)
      have hself : (r :: rs).filter (fun r => ts < time r) = r :: rs := by
        apply List.filter_eq_self.mpr
        intro r' hmem
        rcases List.mem_cons.mp hmem with rfl | hmem
        · simpa using hr
        · simpa using hall r' hmem
      rw [hself]
    · rw [List.filter_cons_of_neg (by simpa using hr)]
      exact (ih hrest).trans (List.suffix_cons r rs)

end CourseDb

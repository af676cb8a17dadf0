import Mathlib.Tactic

/-! # Noninterference

Some inputs of a component are visible to an observer and the others are hidden.
The component does not interfere if the answers to the visible inputs are the
same in every run with the same visible inputs. It is enough to relate two states
such that a visible input is answered alike and a hidden one goes unnoticed.
-/

namespace CourseDb

namespace Noninterference

variable {σ ι ο : Type} (step : σ → ι → ο × σ) (visible : ι → Bool)

/-- The answers to the visible inputs of a run. -/
def observe : σ → List ι → List ο
  | _, [] => []
  | s, i :: is =>
    if visible i then (step s i).1 :: observe (step s i).2 is else observe (step s i).2 is

/-- A relation that the admissible inputs unwind. -/
structure Unwinds (admissible : ι → Prop) (R : σ → σ → Prop) : Prop where
  answers : ∀ {s t i}, R s t → admissible i → visible i = true → (step s i).1 = (step t i).1
  advances : ∀ {s t i}, R s t → admissible i → visible i = true → R (step s i).2 (step t i).2
  hides : ∀ {s t i}, R s t → admissible i → visible i = false → R (step s i).2 t

variable {step visible} {admissible : ι → Prop} {R : σ → σ → Prop}

/-- A run shows what the run of its visible inputs alone shows. -/
theorem Unwinds.observe_filter (h : Unwinds step visible admissible R) {is : List ι}
    (his : ∀ i ∈ is, admissible i) {s t : σ} (hst : R s t) :
    observe step visible s is = observe step visible t (is.filter visible) := by
  induction is generalizing s t with
  | nil => rfl
  | cons i is ih =>
    have hi : admissible i := his i List.mem_cons_self
    have hrest : ∀ j ∈ is, admissible j := fun j hj => his j (List.mem_cons_of_mem i hj)
    cases hvis : visible i with
    | true =>
      simp only [observe, List.filter_cons, hvis, if_true]
      rw [h.answers hst hi hvis, ih hrest (h.advances hst hi hvis)]
    | false =>
      simp only [observe, List.filter_cons, hvis, Bool.false_eq_true, if_false]
      exact ih hrest (h.hides hst hi hvis)

/-- Two runs with the same visible inputs show the same. -/
theorem Unwinds.observe_eq (h : Unwinds step visible admissible R) {is js : List ι}
    (his : ∀ i ∈ is, admissible i) (hjs : ∀ j ∈ js, admissible j)
    (hsame : is.filter visible = js.filter visible) {s : σ} (hs : R s s) :
    observe step visible s is = observe step visible s js := by
  rw [h.observe_filter his hs, h.observe_filter hjs hs, hsame]

end Noninterference

end CourseDb

import Mathlib.Tactic

/-! # Runs of a component and the specification they conform to

A component answers a sequence of inputs one after the other. A specification
relates each answer to abstract states, and may assume something of the
environment at each step. Conformance is proved once and for all from a
relation between component states and abstract states. Two components that
answer alike at each step and stay related answer alike over whole runs.
-/

namespace CourseDb

variable {σ τ ι ο : Type} {step : σ → ι → ο × σ} {P : σ → ι → Prop} {s : σ} {is : List ι}
  {I : σ → Prop} {Q : σ → ι → Prop}

/-- The inputs of a run with the answers to them. -/
def trace (step : σ → ι → ο × σ) : σ → List ι → List (ι × ο)
  | _, [] => []
  | s, i :: is => (i, (step s i).1) :: trace step (step s i).2 is

def finalState (step : σ → ι → ο × σ) : σ → List ι → σ
  | s, [] => s
  | s, i :: is => finalState step (step s i).2 is

theorem finalState_append (step : σ → ι → ο × σ) (s : σ) (is js : List ι) :
    finalState step s (is ++ js) = finalState step (finalState step s is) js := by
  induction is generalizing s with
  | nil => rfl
  | cons i is ih => exact ih _

/-- Every input of a run meets `P` in the state that it arrives in. -/
def Along (step : σ → ι → ο × σ) (P : σ → ι → Prop) : σ → List ι → Prop
  | _, [] => True
  | s, i :: is => P s i ∧ Along step P (step s i).2 is

instance Along.decidable {step : σ → ι → ο × σ} {P : σ → ι → Prop}
    [inst : ∀ s i, Decidable (P s i)] : ∀ s is, Decidable (Along step P s is)
  | _, [] => isTrue trivial
  | s, i :: is => @instDecidableAnd _ _ (inst s i) (Along.decidable (step s i).2 is)

theorem Along.append {js : List ι} :
    Along step P s (is ++ js) ↔ Along step P s is ∧ Along step P (finalState step s is) js := by
  induction is generalizing s with
  | nil => simp [Along, finalState]
  | cons i is ih => simp [Along, finalState, ih, and_assoc]

theorem Along.of_forall_mem {P : ι → Prop} (h : ∀ i ∈ is, P i) :
    Along step (fun _ i => P i) s is := by
  induction is generalizing s with
  | nil => trivial
  | cons i is ih =>
    exact ⟨h i List.mem_cons_self, ih fun j hj => h j (List.mem_cons_of_mem i hj)⟩

theorem Along.and (hp : Along step P s is) (hq : Along step Q s is) :
    Along step (fun s i => P s i ∧ Q s i) s is := by
  induction is generalizing s with
  | nil => trivial
  | cons i is ih => exact ⟨⟨hp.1, hq.1⟩, ih hp.2 hq.2⟩

/-- What every admissible step keeps holds after every admissible run. -/
theorem Along.invariant (hstep : ∀ s i, I s → P s i → I (step s i).2) (hs : I s)
    (h : Along step P s is) : I (finalState step s is) := by
  induction is generalizing s with
  | nil => exact hs
  | cons i is ih => exact ih (hstep s i hs h.1) h.2

/-- An admissible run also meets what an invariant gives at every step. -/
theorem Along.imp (hstep : ∀ s i, I s → P s i → Q s i ∧ I (step s i).2) (hs : I s)
    (h : Along step P s is) : Along step Q s is := by
  induction is generalizing s with
  | nil => trivial
  | cons i is ih =>
    obtain ⟨hi, hnext⟩ := hstep s i hs h.1
    exact ⟨hi, ih hnext h.2⟩

/-- Two properties of the steps that say the same in every state of an invariant, which the
second one keeps, hold along the same runs. -/
theorem Along.iff_of_step {R : σ → ι → Prop} (hiff : ∀ s i, I s → P s i → (Q s i ↔ R s i))
    (hkeep : ∀ s i, I s → P s i → R s i → I (step s i).2) (hs : I s) (h : Along step P s is) :
    Along step Q s is ↔ Along step R s is := by
  induction is generalizing s with
  | nil => exact Iff.rfl
  | cons i is ih =>
    have hi := hiff s i hs h.1
    constructor
    · rintro ⟨hq, hrest⟩
      have hr := hi.mp hq
      exact ⟨hr, (ih (hkeep s i hs h.1 hr) h.2).mp hrest⟩
    · rintro ⟨hr, hrest⟩
      exact ⟨hi.mpr hr, (ih (hkeep s i hs h.1 hr) h.2).mpr hrest⟩

/-- The states of a run are all good exactly if no step is bad, where good steps keep an
invariant and a bad step ends in a state that is not good. -/
theorem Along.forall_prefix_iff {bad : σ → ι → Prop} {good : σ → Prop} (hgood : ∀ s, I s → good s)
    (hkeep : ∀ s i, I s → P s i → ¬ bad s i → I (step s i).2)
    (hbad : ∀ s i, I s → P s i → bad s i → ¬ good (step s i).2) (hs : I s) (h : Along step P s is) :
    (∀ done, done <+: is → good (finalState step s done)) ↔
      Along step (fun s i => ¬ bad s i) s is := by
  induction is generalizing s with
  | nil =>
    refine iff_of_true (fun done hdone => ?_) trivial
    rw [List.prefix_nil.mp hdone]
    exact hgood s hs
  | cons i is ih =>
    constructor
    · intro hall
      have hi : ¬ bad s i := fun hb => hbad s i hs h.1 hb (hall [i] (by simp))
      refine ⟨hi, (ih (hkeep s i hs h.1 hi) h.2).mp fun done hdone => ?_⟩
      exact hall (i :: done) (List.cons_prefix_cons.mpr ⟨rfl, hdone⟩)
    · rintro ⟨hi, hrest⟩ done hdone
      cases done with
      | nil => exact hgood s hs
      | cons j done =>
        obtain ⟨rfl, htail⟩ := List.cons_prefix_cons.mp hdone
        exact (ih (hkeep s j hs h.1 hi) h.2).mpr hrest done htail

/-- What every step keeps holds after every run. -/
theorem finalState_invariant (hstep : ∀ s i, I s → I (step s i).2) (is : List ι) (hs : I s) :
    I (finalState step s is) := by
  induction is generalizing s with
  | nil => exact hs
  | cons i is ih => exact ih (hstep s i hs)

/-- As long as the assumption holds, every answer is one the specification
allows in the abstract state reached so far. -/
def Conforms (assume : τ → ι → ο → Prop) (spec : τ → ι → ο → τ → Prop) :
    τ → List (ι × ο) → Prop
  | _, [] => True
  | t, (i, o) :: rest => assume t i o → ∃ t', spec t i o t' ∧ Conforms assume spec t' rest

/-- The answer is one of those allowed, and the states are related afterwards. -/
def Meets (spec : ο → τ → Prop) (R : σ → τ → Prop) (r : ο × σ) : Prop :=
  ∃ t', spec r.1 t' ∧ R r.2 t'

theorem conforms_of_simulation {assume : τ → ι → ο → Prop} {spec : τ → ι → ο → τ → Prop}
    {R : σ → τ → Prop} (hstep : ∀ s t i, R s t → assume t i (step s i).1 →
      Meets (spec t i) R (step s i)) (is : List ι) {t : τ} (h : R s t) :
    Conforms assume spec t (trace step s is) := by
  induction is generalizing s t with
  | nil => trivial
  | cons i is ih =>
    intro hassume
    obtain ⟨t', hspec, hrel⟩ := hstep s t i h hassume
    exact ⟨t', hspec, ih hrel⟩

end CourseDb

namespace CourseDb

variable {σ τ ι ο : Type} {step : σ → ι → ο × σ} {step' : τ → ι → ο × τ} {R : σ → τ → Prop}
  {s ref : σ} {t ref' : τ} {P : σ → ι → Prop} {P' : τ → ι → Prop}

/-- From related states, every step gives the same answer and related states. -/
def Follows (R : σ → τ → Prop) (step : σ → ι → ο × σ) (step' : τ → ι → ο × τ) : Prop :=
  ∀ s t i, R s t → (step s i).1 = (step' t i).1 ∧ R (step s i).2 (step' t i).2

theorem Follows.finalState (h : Follows R step step') (is : List ι) (hst : R s t) :
    R (finalState step s is) (finalState step' t is) := by
  induction is generalizing s t with
  | nil => exact hst
  | cons i is ih => exact ih (h s t i hst).2

theorem Follows.trace (h : Follows R step step') (is : List ι) (hst : R s t) :
    trace step s is = trace step' t is := by
  induction is generalizing s t with
  | nil => rfl
  | cons i is ih => rw [CourseDb.trace, CourseDb.trace, (h s t i hst).1, ih (h s t i hst).2]

/-- A condition on the steps that related states agree on holds along the same runs. -/
theorem Follows.along (h : Follows R step step') (hP : ∀ s t i, R s t → (P s i ↔ P' t i))
    (is : List ι) (hst : R s t) : Along step P s is ↔ Along step' P' t is := by
  induction is generalizing s t with
  | nil => exact Iff.rfl
  | cons i is ih => exact and_congr (hP s t i hst) (ih (h s t i hst).2)

/-- The state after the last step of a run that is as `P` says, or `ref` if there is none. -/
def stateAsOf (step : σ → ι → ο × σ) (P : σ → ι → Prop) [∀ s, DecidablePred (P s)] (ref : σ) :
    σ → List ι → σ
  | _, [] => ref
  | s, i :: is => stateAsOf step P (if P s i then (step s i).2 else ref) (step s i).2 is

theorem Follows.stateAsOf [∀ s, DecidablePred (P s)] [∀ t, DecidablePred (P' t)]
    (h : Follows R step step') (hP : ∀ s t i, R s t → (P s i ↔ P' t i)) (is : List ι)
    (href : R ref ref') (hst : R s t) :
    R (stateAsOf step P ref s is) (stateAsOf step' P' ref' t is) := by
  induction is generalizing s t ref ref' with
  | nil => exact href
  | cons i is ih =>
    refine ih ?_ (h s t i hst).2
    by_cases hi : P s i
    · rw [if_pos hi, if_pos ((hP s t i hst).mp hi)]
      exact (h s t i hst).2
    · rw [if_neg hi, if_neg fun hi' => hi ((hP s t i hst).mpr hi')]
      exact href

end CourseDb

import Mathlib.Tactic

/-! # Stateful computations that report errors

A computation takes a state and returns a result or an error together with the
state it leaves behind. The state is kept on an error, so that what a failing
operation has already changed stays visible. Where a computation loses its state
on an error, a statement about it says which errors are excused and what a
result and the state after it are like.
-/

namespace CourseDb

/-- A computation on states `σ` with errors `ε`. -/
def Fallible (ε σ α : Type) : Type := σ → Except ε α × σ

namespace Fallible

variable {ε σ α β : Type} {r : Except ε α}

instance : Monad (Fallible ε σ) where
  pure a := fun s => (.ok a, s)
  bind x f := fun s =>
    match x s with
    | (.error e, s') => (.error e, s')
    | (.ok a, s') => f a s'

/-- Stop with an error, keeping the state. -/
def fail (e : ε) : Fallible ε σ α := fun s => (.error e, s)

def read : Fallible ε σ σ := fun s => (.ok s, s)

def modify (f : σ → σ) : Fallible ε σ Unit := fun s => (.ok (), f s)

/-- Lift a result that does not touch the state. -/
def ofExcept (r : Except ε α) : Fallible ε σ α := fun s => (r, s)

/-- Run `x` on a component of the state. -/
def zoom {τ : Type} (get : σ → τ) (set : τ → σ → σ) (x : Fallible ε τ α) : Fallible ε σ α := fun s =>
  ((x (get s)).1, set (x (get s)).2 s)

@[simp] theorem pure_apply (a : α) (s : σ) : (pure a : Fallible ε σ α) s = (.ok a, s) := rfl

@[simp] theorem fail_apply (e : ε) (s : σ) : (fail e : Fallible ε σ α) s = (.error e, s) := rfl

@[simp] theorem read_apply (s : σ) : (read : Fallible ε σ σ) s = (.ok s, s) := rfl

@[simp] theorem modify_apply (f : σ → σ) (s : σ) :
    (modify f : Fallible ε σ Unit) s = (.ok (), f s) := rfl

@[simp] theorem ofExcept_apply (r : Except ε α) (s : σ) : ofExcept r s = (r, s) := rfl

theorem zoom_of_eq {τ : Type} {get : σ → τ} {set : τ → σ → σ} {x : Fallible ε τ α} {s : σ} {t : τ}
    (h : x (get s) = (r, t)) : zoom get set x s = (r, set t s) := by
  rw [zoom, h]

theorem bind_apply (x : Fallible ε σ α) (f : α → Fallible ε σ β) (s : σ) :
    (x >>= f) s =
      match x s with
      | (.error e, s') => (.error e, s')
      | (.ok a, s') => f a s' := rfl

variable {e : ε} {x : Fallible ε σ α} {f : α → Fallible ε σ β} {s s' : σ} {a : α} {b : β}

theorem bind_ok (h : x s = (.ok a, s')) : (x >>= f) s = f a s' := by
  rw [bind_apply, h]

theorem ofExcept_bind (h : r = .ok a) : (ofExcept r >>= f) = f a := by
  rw [h]
  rfl

theorem ofExcept_bind_eq_ok :
    (ofExcept r >>= f) s = (.ok b, s') ↔ ∃ a, r = .ok a ∧ f a s = (.ok b, s') := by
  cases r <;> simp [bind_apply]

theorem read_bind (f : σ → Fallible ε σ β) (s : σ) : (read >>= f) s = f s s := rfl

/-- A statement under a condition, followed by the rest of a block. -/
theorem ite_bind_ok {a' : α} {c : Prop} [Decidable c]
    (h : (if c then x else pure a') s = (.ok a, s')) :
    (if c then x >>= f else f a') s = f a s' := by
  split_ifs at h ⊢
  · exact bind_ok h
  · cases h
    rfl

theorem bind_error (h : x s = (.error e, s')) : (x >>= f) s = (.error e, s') := by
  rw [bind_apply, h]

theorem bind_eq_ok : (x >>= f) s = (.ok b, s') ↔ ∃ a s₁, x s = (.ok a, s₁) ∧ f a s₁ = (.ok b, s') := by
  rw [bind_apply]
  rcases x s with ⟨e | a, s₁⟩ <;> simp

theorem bind_pure_snd (x : Fallible ε σ α) (f : α → β) (s : σ) :
    ((x >>= fun a => pure (f a)) s).2 = (x s).2 := by
  rw [bind_apply]
  rcases x s with ⟨e | a, s'⟩ <;> rfl

section Runs

variable {E : ε → σ → Prop} {P Q : α → σ → Prop} {R : β → σ → Prop}

/-- The computation ends as `Q` says, or with an error that is excused. -/
def Runs (E : ε → σ → Prop) (x : Fallible ε σ α) (s : σ) (Q : α → σ → Prop) : Prop :=
  (∃ e s', x s = (.error e, s') ∧ E e s') ∨ ∃ a s', x s = (.ok a, s') ∧ Q a s'

theorem Runs.of_ok (h : x s = (.ok a, s')) (hq : Q a s') : Runs E x s Q := .inr ⟨a, s', h, hq⟩

theorem Runs.bind (hx : Runs E x s P) (hf : ∀ a s', P a s' → Runs E (f a) s' R) :
    Runs E (x >>= f) s R := by
  rcases hx with ⟨e, s', herr, he⟩ | ⟨a, s', hok, hp⟩
  · exact .inl ⟨e, s', bind_error herr, he⟩
  · have hrest := hf a s' hp
    rw [Runs, bind_ok hok]
    exact hrest

theorem Runs.after (hx : x s = (.ok a, s')) (hf : Runs E (f a) s' R) :
    Runs E (x >>= f) s R := by
  rw [Runs, bind_ok hx]
  exact hf

theorem Runs.read_bind {f : σ → Fallible ε σ β} (hf : Runs E (f s) s R) :
    Runs E (read >>= f) s R :=
  Runs.after (read_apply s) hf

theorem Runs.mono (hx : Runs E x s P) (hpq : ∀ a s', P a s' → Q a s') : Runs E x s Q := by
  rcases hx with herr | ⟨a, s', hok, hp⟩
  · exact .inl herr
  · exact .inr ⟨a, s', hok, hpq a s' hp⟩

end Runs

section Within

variable {R : σ → σ → Prop}

/-- Whether it succeeds or fails, the computation changes the state only as `R` says. -/
def Within (R : σ → σ → Prop) (x : Fallible ε σ α) : Prop := ∀ s, R s (x s).2

theorem Within.bind [IsTrans σ R] (hx : Within R x) (hf : ∀ a, Within R (f a)) :
    Within R (x >>= f) := by
  intro s
  have hs := hx s
  rcases hxs : x s with ⟨e | a, s'⟩
  · rw [bind_error hxs]
    rwa [hxs] at hs
  · rw [bind_ok hxs]
    rw [hxs] at hs
    exact Trans.trans hs (hf a s')

theorem Within.of_eq (hx : Within R x) (h : x s = (r, s')) : R s s' := by
  have hs := hx s
  rwa [h] at hs

theorem Within.mono {R' : σ → σ → Prop} (hx : Within R x) (h : ∀ {s s'}, R s s' → R' s s') :
    Within R' x := fun s => h (hx s)

variable [Std.Refl R]

theorem Within.pure (a : α) : Within R (Pure.pure a : Fallible ε σ α) := fun s => refl s

theorem Within.fail (e : ε) : Within R (Fallible.fail e : Fallible ε σ α) := fun s => refl s

theorem Within.read : Within R (Fallible.read : Fallible ε σ σ) := fun s => refl s

theorem Within.ofExcept (r : Except ε α) : Within R (Fallible.ofExcept r : Fallible ε σ α) :=
  fun s => refl s

end Within

section Keeps

variable {I : σ → Prop} {Q : α → Prop} {R : β → Prop}

/-- Whether it succeeds or fails, the computation keeps the invariant, and a result of it
is as `Q` says. -/
def Keeps (I : σ → Prop) (x : Fallible ε σ α) (Q : α → Prop) : Prop :=
  ∀ s, I s → I (x s).2 ∧ ∀ a, (x s).1 = .ok a → Q a

theorem Keeps.bind (hx : Keeps I x Q) (hf : ∀ a, Q a → Keeps I (f a) R) : Keeps I (x >>= f) R := by
  intro s hs
  obtain ⟨hkept, hresult⟩ := hx s hs
  rcases hxs : x s with ⟨e | a, s'⟩
  · rw [bind_error hxs]
    rw [hxs] at hkept
    exact ⟨hkept, fun _ hok => by cases hok⟩
  · rw [bind_ok hxs]
    rw [hxs] at hkept hresult
    exact hf a (hresult a rfl) s' hkept

theorem Keeps.mono {Q' : α → Prop} (hx : Keeps I x Q) (h : ∀ a, Q a → Q' a) : Keeps I x Q' :=
  fun s hs => ⟨(hx s hs).1, fun a hok => h a ((hx s hs).2 a hok)⟩

theorem Keeps.pure (ha : Q a) : Keeps I (Pure.pure a : Fallible ε σ α) Q := by
  intro s hs
  refine ⟨hs, fun b hok => ?_⟩
  cases hok
  exact ha

theorem Keeps.fail (e : ε) : Keeps I (Fallible.fail e : Fallible ε σ α) Q :=
  fun _ hs => ⟨hs, fun _ hok => by cases hok⟩

theorem Keeps.read : Keeps I (Fallible.read : Fallible ε σ σ) I := by
  intro s hs
  refine ⟨hs, fun t hok => ?_⟩
  cases hok
  exact hs

theorem Keeps.modify {g : σ → σ} (hg : ∀ s, I s → I (g s)) :
    Keeps I (Fallible.modify g : Fallible ε σ Unit) fun _ => True :=
  fun s hs => ⟨hg s hs, fun _ _ => trivial⟩

theorem Keeps.ofExcept (hr : ∀ a, r = .ok a → Q a) :
    Keeps I (Fallible.ofExcept r : Fallible ε σ α) Q :=
  fun _ hs => ⟨hs, hr⟩

theorem Keeps.ite {c : Prop} [Decidable c] {y : Fallible ε σ α} (hx : c → Keeps I x Q)
    (hy : ¬ c → Keeps I y Q) : Keeps I (if c then x else y) Q := by
  split_ifs with hc
  · exact hx hc
  · exact hy hc

theorem Keeps.guard {c : Prop} [Decidable c] {e : ε} (hx : ¬ c → Keeps I x Q) :
    Keeps I (if c then Fallible.fail e else x) Q :=
  Keeps.ite (fun _ => Keeps.fail e) hx

theorem Keeps.zoom {τ : Type} {J : τ → Prop} {get : σ → τ} {set : τ → σ → σ} {y : Fallible ε τ α}
    (hy : Keeps J y Q) (hget : ∀ s, I s → J (get s)) (hset : ∀ s t, I s → J t → I (set t s)) :
    Keeps I (Fallible.zoom get set y) Q := by
  intro s hs
  obtain ⟨hkept, hresult⟩ := hy (get s) (hget s hs)
  exact ⟨hset s _ hs hkept, hresult⟩

end Keeps

section Tracks

variable {τ : Type} {R : σ → τ → Prop} {y : Fallible ε τ α} {g : α → Fallible ε τ β}

/-- From related states the computations give the same result and related states. -/
def Tracks (R : σ → τ → Prop) (x : Fallible ε σ α) (y : Fallible ε τ α) : Prop :=
  ∀ s t, R s t → (x s).1 = (y t).1 ∧ R (x s).2 (y t).2

theorem Tracks.bind (hx : Tracks R x y) (hf : ∀ a, Tracks R (f a) (g a)) :
    Tracks R (x >>= f) (y >>= g) := by
  intro s t hst
  obtain ⟨hresult, hstate⟩ := hx s t hst
  rcases hxs : x s with ⟨e | a, s'⟩
  · rcases hyt : y t with ⟨e' | b, t'⟩
    · rw [hxs, hyt] at hresult hstate
      rw [bind_error hxs, bind_error hyt]
      cases hresult
      exact ⟨rfl, hstate⟩
    · rw [hxs, hyt] at hresult
      cases hresult
  · rcases hyt : y t with ⟨e' | b, t'⟩
    · rw [hxs, hyt] at hresult
      cases hresult
    · rw [hxs, hyt] at hresult hstate
      cases hresult
      rw [bind_ok hxs, bind_ok hyt]
      exact hf a s' t' hstate

theorem Tracks.read_bind {f : σ → Fallible ε σ β} {g : τ → Fallible ε τ β}
    (h : ∀ s t, R s t → Tracks R (f s) (g t)) : Tracks R (read >>= f) (read >>= g) :=
  fun s t hst => h s t hst s t hst

theorem Tracks.ofExcept_bind (h : ∀ a, r = .ok a → Tracks R (f a) (g a)) :
    Tracks R (ofExcept r >>= f) (ofExcept r >>= g) := by
  cases r with
  | error e => exact fun _ _ hst => ⟨rfl, hst⟩
  | ok a => exact h a rfl

theorem Tracks.fail (e : ε) : Tracks R (fail e : Fallible ε σ α) (fail e) :=
  fun _ _ hst => ⟨rfl, hst⟩

theorem Tracks.modify {f : σ → σ} {g : τ → τ} (h : ∀ s t, R s t → R (f s) (g t)) :
    Tracks R (modify f : Fallible ε σ Unit) (modify g) := fun s t hst => ⟨rfl, h s t hst⟩

theorem Tracks.pure (a : α) : Tracks R (Pure.pure a : Fallible ε σ α) (Pure.pure a) :=
  fun _ _ hst => ⟨rfl, hst⟩

end Tracks

end Fallible

/-- The same without a state: a successful sequence splits into its successful parts. -/
theorem except_bind_eq_ok {ε α β : Type} {x : Except ε α} {f : α → Except ε β} {b : β} :
    (x >>= f) = .ok b ↔ ∃ a, x = .ok a ∧ f a = .ok b := by
  cases x <;> simp [bind, Except.bind]

end CourseDb

namespace CourseDb

variable {σ ε α β : Type} {excused : ε → Prop} {x : StateT σ (Except ε) α}
  {f : α → StateT σ (Except ε) β} {s s' : σ} {a : α} {P Q : α → σ → Prop} {R : β → σ → Prop}

/-- Started in `s`, the computation throws an error that is excused, or it ends as `Q` says. -/
def Ends (excused : ε → Prop) (x : StateT σ (Except ε) α) (s : σ) (Q : α → σ → Prop) : Prop :=
  match x s with
  | .error e => excused e
  | .ok (a, s') => Q a s'

namespace Ends

theorem of_ok (h : x s = .ok (a, s')) (hq : Q a s') : Ends excused x s Q := by
  unfold Ends
  rw [h]
  exact hq

theorem of_error {e : ε} (h : x s = .error e) (he : excused e) : Ends excused x s Q := by
  unfold Ends
  rw [h]
  exact he

theorem cases (h : Ends excused x s Q) :
    (∃ e, x s = .error e ∧ excused e) ∨ ∃ a s', x s = .ok (a, s') ∧ Q a s' := by
  unfold Ends at h
  rcases hx : x s with e | ⟨a, s'⟩
  · rw [hx] at h
    exact .inl ⟨e, rfl, h⟩
  · rw [hx] at h
    exact .inr ⟨a, s', rfl, h⟩

theorem bind (hx : Ends excused x s P) (hf : ∀ a s', P a s' → Ends excused (f a) s' R) :
    Ends excused (x >>= f) s R := by
  have hrun : (x >>= f) s = (x s >>= fun p => f p.1 p.2) := rfl
  rcases hx.cases with ⟨e, hthrown, he⟩ | ⟨a, s', hok, hp⟩
  · refine of_error ?_ he
    rw [hrun, hthrown]
    rfl
  · have hnext := hf a s' hp
    unfold Ends at hnext ⊢
    rw [hrun, hok]
    exact hnext

theorem mono (hx : Ends excused x s P) (h : ∀ a s', P a s' → Q a s') : Ends excused x s Q := by
  rcases hx.cases with ⟨e, hthrown, he⟩ | ⟨a, s', hok, hp⟩
  · exact of_error hthrown he
  · exact of_ok hok (h a s' hp)

end Ends

end CourseDb

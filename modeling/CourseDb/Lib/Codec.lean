import Mathlib.Data.List.Basic
import Mathlib.Tactic

/-! # Little-endian codecs over an offset into a byte buffer

A reader takes a buffer and an offset, and returns a value with the offset
after it. `Decodes r enc a` states that `r` reads the bytes `enc` back as `a`
wherever they stand in a buffer. The composition rules let the correctness of
a record be assembled from the correctness of its fields.
-/

namespace CourseDb.Codec

abbrev Byte := Fin 256

instance neZero_byte : NeZero 256 := ⟨by decide⟩

/-- The `w` low-order bytes of `n`, least significant first. -/
def leBytes : ℕ → ℕ → List Byte
  | 0, _ => []
  | w + 1, n => Fin.ofNat 256 n :: leBytes w (n / 256)

/-- The number a little-endian byte list denotes. -/
def leValue : List Byte → ℕ
  | [] => 0
  | b :: bs => b.val + 256 * leValue bs

@[simp] theorem leBytes_length (w n : ℕ) : (leBytes w n).length = w := by
  induction w generalizing n with
  | zero => rfl
  | succ w ih => simp [leBytes, ih]

/-- Writing truncates to the width; reading returns what was kept. -/
theorem leValue_leBytes (w n : ℕ) : leValue (leBytes w n) = n % 256 ^ w := by
  induction w generalizing n with
  | zero => simp [leBytes, leValue, Nat.mod_one]
  | succ w ih =>
    simp only [leBytes, leValue, ih, Fin.val_ofNat]
    rw [pow_succ', Nat.mod_mul]

variable {n : ℕ}

theorem leValue_leBytes_of_lt {w : ℕ} (h : n < 256 ^ w) : leValue (leBytes w n) = n := by
  rw [leValue_leBytes, Nat.mod_eq_of_lt h]

theorem leValue_lt (l : List Byte) : leValue l < 256 ^ l.length := by
  induction l with
  | nil => simp [leValue]
  | cons b l ih =>
    simp only [leValue, List.length_cons, pow_succ]
    omega

/-- The bytes of a number of known width are determined by its value. -/
theorem leBytes_leValue (l : List Byte) : leBytes l.length (leValue l) = l := by
  induction l with
  | nil => rfl
  | cons b l ih =>
    have hlow : Fin.ofNat 256 (b.val + 256 * leValue l) = b := by
      apply Fin.ext
      simp only [Fin.val_ofNat]
      omega
    have hrest : (b.val + 256 * leValue l) / 256 = leValue l := by omega
    simp only [List.length_cons, leValue, leBytes, hlow, hrest, ih]

theorem leBytes_mod (w n : ℕ) : leBytes w (n % 256 ^ w) = leBytes w n := by
  have hback := leBytes_leValue (leBytes w n)
  rwa [leBytes_length, leValue_leBytes] at hback

/-- In byte order it is the lowest byte that counts. -/
theorem leBytes_lt_iff (w m n : ℕ) :
    leBytes w m < leBytes w n ↔
      ∃ k < w, m % 256 ^ k = n % 256 ^ k ∧ m % 256 ^ (k + 1) < n % 256 ^ (k + 1) := by
  induction w generalizing m n with
  | zero => simp [leBytes]
  | succ w ih =>
    have hhigh (k x : ℕ) : x % 256 ^ (k + 1) = x % 256 + 256 * (x / 256 % 256 ^ k) := by
      rw [pow_succ', Nat.mod_mul]
    rw [leBytes, leBytes, List.cons_lt_cons_iff, ih]
    simp only [Fin.lt_def, Fin.ext_iff, Fin.val_ofNat]
    constructor
    · rintro (hlow | ⟨hlow, k, hk, heq, hlt⟩)
      · exact ⟨0, Nat.succ_pos w, by simp [Nat.mod_one], by simpa using hlow⟩
      · refine ⟨k + 1, by omega, ?_, ?_⟩
        · rw [hhigh, hhigh, hlow, heq]
        · rw [hhigh, hhigh (k + 1)]
          omega
    · rintro ⟨k, hk, heq, hlt⟩
      cases k with
      | zero => exact .inl (by simpa using hlt)
      | succ k =>
        rw [hhigh, hhigh k] at heq
        rw [hhigh, hhigh (k + 1)] at hlt
        exact .inr ⟨by omega, k, by omega, by omega, by omega⟩

variable {ε α β : Type}

/-- A computation that reads from a buffer at a moving offset. -/
def Reader (ε α : Type) : Type := List Byte → ℕ → Except ε (α × ℕ)

namespace Reader

instance : Monad (Reader ε) where
  pure a := fun _ off => .ok (a, off)
  bind r f := fun bs off =>
    match r bs off with
    | .error e => .error e
    | .ok (a, off') => f a bs off'

def fail (e : ε) : Reader ε α := fun _ _ => .error e

def offset : Reader ε ℕ := fun _ off => .ok (off, off)

/-- Check that `need` bytes stand at the offset. -/
def ensure (e : ε) (need : ℕ) : Reader ε Unit := fun bs off =>
  if bs.length < off ∨ bs.length - off < need then .error e else .ok ((), off)

/-- The next `n` bytes, unchecked. -/
def take (n : ℕ) : Reader ε (List Byte) := fun bs off => .ok ((bs.drop off).take n, off + n)

/-- A `w`-byte little-endian unsigned integer. -/
def uint (e : ε) (w : ℕ) : Reader ε ℕ := do
  ensure e w
  let raw ← take w
  return leValue raw

/-- Read `r` and require that it consumed exactly `n` bytes. -/
def sized (e : ε) (n : ℕ) (r : Reader ε α) : Reader ε α := do
  let start ← offset
  let a ← r
  let stop ← offset
  if stop - start ≠ n then fail e else return a

def times (r : Reader ε α) : ℕ → Reader ε (List α)
  | 0 => return []
  | n + 1 => do
    let a ← r
    let rest ← times r n
    return a :: rest

theorem pure_apply (a : α) (bs : List Byte) (off : ℕ) :
    (pure a : Reader ε α) bs off = .ok (a, off) := rfl

theorem bind_apply (r : Reader ε α) (f : α → Reader ε β) (bs : List Byte) (off : ℕ) :
    (r >>= f) bs off =
      match r bs off with
      | .error e => .error e
      | .ok (a, off') => f a bs off' := rfl

end Reader

variable {r : Reader ε α} {f : α → Reader ε β} {a : α} {b : β} {enc bs : List Byte} {e : ε}

theorem Reader.ensure_bind {f : Unit → Reader ε α} (hn : n ≤ enc.length) (pre post : List Byte) :
    (ensure e n >>= f) (pre ++ (enc ++ post)) pre.length =
      f () (pre ++ (enc ++ post)) pre.length := by
  have hlen : ¬ ((pre ++ (enc ++ post)).length < pre.length ∨
      (pre ++ (enc ++ post)).length - pre.length < n) := by
    simp only [List.length_append]
    omega
  rw [bind_apply, ensure, if_neg hlen]

/-- Wherever `enc` stands in a buffer, `Q` holds of what `r` gives and the offset behind `enc`. -/
def Gives (r : Reader ε α) (enc : List Byte) (Q : Except ε (α × ℕ) → ℕ → Prop) : Prop :=
  ∀ pre post : List Byte, Q (r (pre ++ (enc ++ post)) pre.length) (pre.length + enc.length)

/-- `r` reads `enc` back as `a`. -/
def Decodes (r : Reader ε α) (enc : List Byte) (a : α) : Prop :=
  Gives r enc fun result stop => result = .ok (a, stop)

theorem Gives.ensure {Q : Except ε (α × ℕ) → ℕ → Prop} {f : Unit → Reader ε α}
    (hn : n ≤ enc.length) (hf : Gives (f ()) enc Q) : Gives (Reader.ensure e n >>= f) enc Q := by
  intro pre post
  rw [Reader.ensure_bind hn]
  exact hf pre post

namespace Decodes

theorem pure (a : α) : Decodes (pure a : Reader ε α) [] a := by
  intro pre post
  simp [Reader.pure_apply]

theorem bind {b c : List Byte} {Q : Except ε (β × ℕ) → ℕ → Prop} (hr : Decodes r b a)
    (hf : Gives (f a) c Q) : Gives (r >>= f) (b ++ c) Q := by
  intro pre post
  have h := hf (pre ++ b) post
  simp only [List.append_assoc, List.length_append] at h
  rw [Reader.bind_apply, List.append_assoc, hr pre (c ++ post), List.length_append, ← Nat.add_assoc]
  exact h

theorem map {Q : Except ε (β × ℕ) → ℕ → Prop} (hr : Decodes r enc a) (hf : Gives (f a) [] Q) :
    Gives (r >>= f) enc Q := by
  simpa using hr.bind hf

theorem take (enc : List Byte) : Decodes (Reader.take enc.length : Reader ε _) enc enc := by
  intro pre post
  simp [Reader.take]

theorem uint_mod (e : ε) (w n : ℕ) :
    Decodes (Reader.uint e w) (leBytes w n) (n % 256 ^ w) := by
  refine Gives.ensure (by simp) ?_
  have ht := take (ε := ε) (leBytes w n)
  rw [leBytes_length] at ht
  refine ht.map ?_
  rw [leValue_leBytes]
  exact pure _

theorem uint (e : ε) {w : ℕ} (h : n < 256 ^ w) : Decodes (Reader.uint e w) (leBytes w n) n := by
  simpa [Nat.mod_eq_of_lt h] using uint_mod e w n

theorem sized (hr : Decodes r enc a) (hn : enc.length = n) :
    Decodes (Reader.sized e n r) enc a := by
  intro pre post
  simp [Reader.sized, Reader.bind_apply, Reader.offset, hr pre post, hn, Reader.pure_apply]

theorem times {enc : α → List Byte} {as : List α} (hr : ∀ a ∈ as, Decodes r (enc a) a) :
    Decodes (Reader.times r as.length) (as.flatMap enc) as := by
  induction as with
  | nil => exact pure []
  | cons a as ih =>
    have hhead := hr a (by simp)
    have htail := ih fun b hb => hr b (by simp [hb])
    exact hhead.bind (htail.map (pure _))

/-- Reading at the front of a padded buffer. -/
theorem front (hr : Decodes r enc a) (pre post : List Byte) {off : ℕ} (hoff : pre.length = off) :
    r (pre ++ (enc ++ post)) off = .ok (a, off + enc.length) := by
  subst hoff
  exact hr pre post

/-- A buffer with nothing else in it. -/
theorem whole (hr : Decodes r enc a) : r enc 0 = .ok (a, enc.length) := by
  simpa using hr [] []

end Decodes

/-- A reader that fails on an encoding. -/
def Rejects (r : Reader ε α) (enc : List Byte) (e : ε) : Prop :=
  Gives r enc fun result _ => result = .error e

theorem Rejects.bind_left (hr : Rejects r enc e) : Rejects (r >>= f) enc e := by
  intro pre post
  rw [Reader.bind_apply, hr pre post]

theorem Rejects.append (hr : Rejects r enc e) (rest : List Byte) : Rejects r (enc ++ rest) e := by
  intro pre post
  rw [List.append_assoc]
  exact hr pre (rest ++ post)

theorem Rejects.sized {e' : ε} (hr : Rejects r enc e) : Rejects (Reader.sized e' n r) enc e := by
  intro pre post
  simp [Reader.sized, Reader.bind_apply, Reader.offset, hr pre post]

theorem Rejects.whole (hr : Rejects r enc e) : r enc 0 = .error e := by
  simpa using hr [] []

/-- A reader that takes all of an encoding if it accepts anything of it. -/
def Takes (r : Reader ε α) (enc : List Byte) : Prop :=
  Gives r enc fun result stop => ∀ a off, result = .ok (a, off) → off = stop

/-- Whatever `r` accepts lies within the buffer, and `Q` relates the value to
the bytes it was read from. -/
def Consumes (r : Reader ε α) (Q : α → List Byte → Prop) : Prop :=
  ∀ bs off a off', r bs off = .ok (a, off') → off ≤ bs.length →
    ∃ w, bs.drop off = w ++ bs.drop off' ∧ off' = off + w.length ∧ off' ≤ bs.length ∧ Q a w

theorem Reader.bind_eq_ok {off off' : ℕ} (h : (r >>= f) bs off = .ok (b, off')) :
    ∃ a mid, r bs off = .ok (a, mid) ∧ f a bs mid = .ok (b, off') := by
  rw [Reader.bind_apply] at h
  cases hr : r bs off with
  | error e => simp [hr] at h
  | ok p => exact ⟨p.1, p.2, rfl, by simpa [hr] using h⟩

theorem Reader.ensure_eq_ok {off off' : ℕ} {u : Unit} (h : Reader.ensure e n bs off = .ok (u, off')) :
    off' = off ∧ off + n ≤ bs.length := by
  unfold Reader.ensure at h
  split at h
  · cases h
  · cases h
    exact ⟨rfl, by omega⟩

theorem Reader.sized_eq_ok {off off' : ℕ} (h : Reader.sized e n r bs off = .ok (a, off')) :
    r bs off = .ok (a, off') ∧ off' - off = n := by
  obtain ⟨start, _, hstart, h₁⟩ := Reader.bind_eq_ok h
  obtain ⟨b, mid, hr, h₂⟩ := Reader.bind_eq_ok h₁
  obtain ⟨stop, _, hstop, h₃⟩ := Reader.bind_eq_ok h₂
  cases hstart
  cases hstop
  split_ifs at h₃ with hne
  · cases h₃
  · cases h₃
    exact ⟨hr, not_not.mp hne⟩

theorem Takes.sized {g : α → β} (hpos : 0 < enc.length) :
    Takes (Reader.sized e enc.length r >>= fun a => pure (g a)) enc := by
  intro pre post b off h
  obtain ⟨a, mid, hsized, hend⟩ := Reader.bind_eq_ok h
  cases hend
  obtain ⟨-, hlen⟩ := Reader.sized_eq_ok hsized
  omega

namespace Consumes

variable {P Q : α → List Byte → Prop}

theorem mono (hr : Consumes r P) (h : ∀ a w, P a w → Q a w) : Consumes r Q := by
  intro bs off a off' hok hoff
  obtain ⟨w, hdrop, hlen, hle, hP⟩ := hr bs off a off' hok hoff
  exact ⟨w, hdrop, hlen, hle, h a w hP⟩

theorem pure (h : Q a []) : Consumes (pure a : Reader ε α) Q := by
  intro bs off b off' hok hoff
  cases hok
  exact ⟨[], rfl, rfl, hoff, h⟩

theorem fail (e : ε) : Consumes (Reader.fail e : Reader ε α) Q := by
  intro bs off a off' hok
  cases hok

theorem bind {R : β → List Byte → Prop} (hr : Consumes r P)
    (hf : ∀ a w, P a w → Consumes (f a) fun b v => R b (w ++ v)) : Consumes (r >>= f) R := by
  intro bs off b off' hok hoff
  obtain ⟨a, mid, hr', hf'⟩ := Reader.bind_eq_ok hok
  obtain ⟨w, hdrop, hmid, hle, hP⟩ := hr bs off a mid hr' hoff
  obtain ⟨v, hdrop', hoff', hle', hR⟩ := hf a w hP bs mid b off' hf' hle
  refine ⟨w ++ v, ?_, ?_, hle', hR⟩
  · rw [hdrop, hdrop', List.append_assoc]
  · rw [hoff', hmid, List.length_append, Nat.add_assoc]

theorem checked (e : ε) (n : ℕ) :
    Consumes (Reader.ensure e n >>= fun _ => Reader.take n) fun l w => l = w ∧ w.length = n := by
  intro bs off l off' hok hoff
  obtain ⟨_, mid, hensure, htake⟩ := Reader.bind_eq_ok hok
  obtain ⟨rfl, hfits⟩ := Reader.ensure_eq_ok hensure
  cases htake
  have hlen : ((bs.drop mid).take n).length = n := by simp; omega
  refine ⟨(bs.drop mid).take n, ?_, by rw [hlen], hfits, rfl, hlen⟩
  rw [← List.drop_drop, List.take_append_drop]

theorem uint (e : ε) (w : ℕ) :
    Consumes (Reader.uint e w) fun n v => v = leBytes w n ∧ n < 256 ^ w := by
  have hassoc : Reader.uint e w =
      (Reader.ensure e w >>= fun _ => Reader.take w) >>= fun raw => Pure.pure (leValue raw) := by
    funext bs off
    simp only [Reader.uint, Reader.bind_apply]
    cases Reader.ensure e w bs off <;> rfl
  rw [hassoc]
  refine (checked e w).bind ?_
  rintro raw v ⟨rfl, rfl⟩
  refine pure ⟨?_, leValue_lt raw⟩
  rw [leBytes_leValue, List.append_nil]

theorem times {enc : α → List Byte} {W : α → Prop} (hr : Consumes r fun a w => w = enc a ∧ W a)
    (n : ℕ) : Consumes (Reader.times r n) fun as w =>
      w = as.flatMap enc ∧ as.length = n ∧ ∀ a ∈ as, W a := by
  induction n with
  | zero => exact pure ⟨rfl, rfl, by simp⟩
  | succ n ih =>
    refine hr.bind ?_
    rintro a w ⟨rfl, ha⟩
    refine ih.bind ?_
    rintro as v ⟨rfl, hlen, has⟩
    refine pure ⟨by simp, by simp [hlen], ?_⟩
    simpa using ⟨ha, has⟩

end Consumes

end CourseDb.Codec

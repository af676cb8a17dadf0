import CourseDb.Lib.Codec

/-! # Decimal numbers of a fixed width

Numbers written with leading zeros to a fixed number of ASCII digits. Such texts
are read back as the numbers they were written for, and they are ordered as the
numbers are.
-/

namespace CourseDb.Decimal

open Codec (Byte)

variable {digits : List Byte}

/-- The number that ASCII digits denote. -/
def value (digits : List Byte) : ℕ := digits.foldl (fun n b => 10 * n + (b.val - 48)) 0

def IsDigit (b : Byte) : Prop := 48 ≤ b.val ∧ b.val ≤ 57

/-- The last `w` digits of `n`. -/
def fixed : ℕ → ℕ → List Byte
  | 0, _ => []
  | w + 1, n => fixed w (n / 10) ++ [Fin.ofNat 256 (48 + n % 10)]

theorem value_append (digits more : List Byte) :
    value (digits ++ more) = value digits * 10 ^ more.length + value more := by
  induction more using List.reverseRecOn with
  | nil => simp [value]
  | append_singleton more b ih =>
    have hlast (l : List Byte) : value (l ++ [b]) = 10 * value l + (b.val - 48) := by
      simp [value]
    rw [← List.append_assoc, hlast, hlast, ih, List.length_append, List.length_singleton, pow_succ]
    ring

theorem value_cons (b : Byte) (digits : List Byte) :
    value (b :: digits) = (b.val - 48) * 10 ^ digits.length + value digits := by
  have h := value_append [b] digits
  simpa [value] using h

@[simp] theorem fixed_length (w n : ℕ) : (fixed w n).length = w := by
  induction w generalizing n with
  | zero => rfl
  | succ w ih => simp [fixed, ih]

theorem value_lt (h : ∀ b ∈ digits, IsDigit b) : value digits < 10 ^ digits.length := by
  induction digits with
  | nil => simp [value]
  | cons b digits ih =>
    obtain ⟨hb, hdigits⟩ := List.forall_mem_cons.mp h
    have hrest := ih hdigits
    have hfirst : (b.val - 48) * 10 ^ digits.length ≤ 9 * 10 ^ digits.length :=
      Nat.mul_le_mul_right _ (by have := hb.2; omega)
    rw [value_cons, List.length_cons, pow_succ]
    omega

theorem isDigit_fixed (w n : ℕ) : ∀ b ∈ fixed w n, IsDigit b := by
  induction w generalizing n with
  | zero => simp [fixed]
  | succ w ih =>
    intro b hb
    rw [fixed, List.mem_append, List.mem_singleton] at hb
    rcases hb with hb | rfl
    · exact ih _ b hb
    · constructor
      · rw [Fin.val_ofNat]
        omega
      · rw [Fin.val_ofNat]
        omega

theorem value_fixed (w n : ℕ) : value (fixed w n) = n % 10 ^ w := by
  induction w generalizing n with
  | zero => simp [fixed, value, Nat.mod_one]
  | succ w ih =>
    have hdigit : value [Fin.ofNat 256 (48 + n % 10)] = n % 10 := by
      simp only [value, List.foldl_cons, List.foldl_nil, Fin.val_ofNat]
      omega
    rw [fixed, value_append, ih, hdigit, pow_succ', Nat.mod_mul]
    simp only [List.length_singleton, pow_one]
    ring

/-- Digits are the fixed-width form of their number. -/
theorem fixed_value (h : ∀ b ∈ digits, IsDigit b) :
    fixed digits.length (value digits) = digits := by
  induction digits using List.reverseRecOn with
  | nil => rfl
  | append_singleton digits b ih =>
    have hb : IsDigit b := h b (by simp)
    have hlast : value [b] = b.val - 48 := by simp [value]
    have hrest : (value digits * 10 + (b.val - 48)) / 10 = value digits := by
      have := hb.2
      omega
    have hdigit : Fin.ofNat 256 (48 + (value digits * 10 + (b.val - 48)) % 10) = b := by
      apply Fin.ext
      rw [Fin.val_ofNat]
      have := hb.1
      have := hb.2
      omega
    rw [List.length_append, List.length_singleton, value_append, hlast, List.length_singleton,
      pow_one, fixed, hrest, hdigit, ih fun b hb => h b (List.mem_append_left _ hb)]

/-- Numbers of two places are compared place by place. -/
theorem radix_lt_iff {a a' k k' R : ℤ} (hk : 0 ≤ k ∧ k < R) (hk' : 0 ≤ k' ∧ k' < R) :
    a * R + k < a' * R + k' ↔ a < a' ∨ a = a' ∧ k < k' := by
  rcases lt_trichotomy a a' with hlt | rfl | hlt
  · refine iff_of_true ?_ (.inl hlt)
    nlinarith
  · simp
  · refine iff_of_false ?_ ?_
    · nlinarith
    · omega

/-- Texts of the same length are compared part by part. -/
theorem append_lt_append_iff {a b c d : List Byte} (h : a.length = b.length) :
    a ++ c < b ++ d ↔ a < b ∨ a = b ∧ c < d := by
  induction a generalizing b with
  | nil =>
    obtain rfl : b = [] := List.length_eq_zero_iff.mp h.symm
    simp
  | cons x a ih =>
    cases b with
    | nil => cases h
    | cons y b =>
      have hrest := ih (Nat.succ_injective h)
      simp only [List.cons_append, List.cons_lt_cons_iff, List.cons.injEq, hrest]
      tauto

theorem lt_iff_value_lt {digits' : List Byte} (h : ∀ b ∈ digits, IsDigit b)
    (h' : ∀ b ∈ digits', IsDigit b) (hlen : digits.length = digits'.length) :
    digits < digits' ↔ value digits < value digits' := by
  induction digits generalizing digits' with
  | nil =>
    obtain rfl : digits' = [] := List.length_eq_zero_iff.mp hlen.symm
    simp
  | cons b digits ih =>
    cases digits' with
    | nil => cases hlen
    | cons c digits' =>
      obtain ⟨hb, hdigits⟩ := List.forall_mem_cons.mp h
      obtain ⟨hc, hdigits'⟩ := List.forall_mem_cons.mp h'
      have hlen' : digits.length = digits'.length := Nat.succ_injective hlen
      have hlt := value_lt hdigits
      have hlt' := value_lt hdigits'
      have hfirst : b < c ↔ b.val - 48 < c.val - 48 := by
        have := hb.1
        have := hc.1
        rw [Fin.lt_def]
        omega
      have hsame : b = c ↔ b.val - 48 = c.val - 48 := by
        have := hb.1
        have := hc.1
        rw [Fin.ext_iff]
        omega
      have hradix : ((b.val - 48 : ℕ) : ℤ) * (10 ^ digits.length : ℕ) + value digits <
          (c.val - 48 : ℕ) * (10 ^ digits.length : ℕ) + value digits' ↔
          ((b.val - 48 : ℕ) : ℤ) < (c.val - 48 : ℕ) ∨
            ((b.val - 48 : ℕ) : ℤ) = (c.val - 48 : ℕ) ∧ (value digits : ℤ) < value digits' :=
        radix_lt_iff ⟨by positivity, by exact_mod_cast hlt⟩
          ⟨by positivity, by exact_mod_cast hlen' ▸ hlt'⟩
      rw [List.cons_lt_cons_iff, ih hdigits hdigits' hlen', value_cons, value_cons, ← hlen', hfirst,
        hsame]
      exact_mod_cast hradix.symm

end CourseDb.Decimal

import CourseDb.Common.Value

/-! # Texts as byte strings

A `std::string` is a list of bytes. Literals of the source are written as Lean
strings and turned into bytes, and bytes are turned into characters where a
status message quotes them.
-/

namespace CourseDb

variable {i : ℕ}

/-- The bytes of a literal of the source, which has only ASCII characters. -/
def ascii (s : String) : ByteString := s.toList.map fun c => Fin.ofNat 256 c.toNat

/-- A byte string as part of a message. -/
def quoted (bytes : ByteString) : String := String.ofList (bytes.map fun b => Char.ofNat b.val)

/-- The characters of a number are digits. -/
theorem toNat_of_mem_toString {c : Char} (h : c ∈ (toString i).toList) :
    48 ≤ c.toNat ∧ c.toNat ≤ 57 := by
  rw [Nat.toString_eq_ofList_toDigits, String.toList_ofList] at h
  have hdigit := Nat.isDigit_of_mem_toDigits (by decide) (by decide) h
  simp only [Char.isDigit, Bool.and_eq_true, decide_eq_true_eq] at hdigit
  exact hdigit

theorem digit_of_mem_toString {b : Byte} (h : b ∈ ascii (toString i)) :
    48 ≤ b.val ∧ b.val ≤ 57 := by
  obtain ⟨c, hc, rfl⟩ := List.mem_map.mp h
  have hdigit := toNat_of_mem_toString hc
  rw [Fin.val_ofNat, Nat.mod_eq_of_lt (hdigit.2.trans_lt (by decide))]
  exact hdigit

/-- The digits of a number, read from the left, give the number. -/
theorem foldl_digits (n : ℕ) :
    (ascii (toString n)).foldl (fun m b => 10 * m + (b.val - 48)) 0 = n := by
  have hdigits : ∀ c ∈ Nat.toDigits 10 n, (Fin.ofNat 256 c.toNat).val = c.toNat := by
    intro c hc
    have hchar : c ∈ (toString n).toList := by
      rw [Nat.toString_eq_ofList_toDigits, String.toList_ofList]
      exact hc
    rw [Fin.val_ofNat, Nat.mod_eq_of_lt ((toNat_of_mem_toString hchar).2.trans_lt (by decide))]
  have hsame : ∀ m, ∀ c ∈ Nat.toDigits 10 n,
      10 * m + ((Fin.ofNat 256 c.toNat).val - 48) = 10 * m + (c.toNat - '0'.toNat) := by
    intro m c hc
    rw [hdigits c hc]
    rfl
  rw [ascii, Nat.toString_eq_ofList_toDigits, String.toList_ofList, List.foldl_map,
    List.foldl_ext _ _ 0 hsame]
  exact Nat.ofDigitChars_ten_toDigits

theorem ascii_toString_injective {j : ℕ} (h : ascii (toString i) = ascii (toString j)) : i = j := by
  have hvalue := congrArg (List.foldl (fun m b => 10 * m + (b.val - 48)) 0) h
  rwa [foldl_digits, foldl_digits] at hvalue

/-- What stands before and after the last `c` of a text, seen from its end. -/
theorem split_at_last {c : Byte} (dir : ByteString) {name : ByteString} (h : c ∉ name) :
    (dir ++ c :: name).reverse.dropWhile (· ≠ c) = c :: dir.reverse ∧
      (dir ++ c :: name).reverse.takeWhile (· ≠ c) = name.reverse := by
  have hname : ∀ b ∈ name.reverse, decide (b ≠ c) = true := by
    intro b hb
    rw [decide_eq_true_eq]
    rintro rfl
    exact h (List.mem_reverse.mp hb)
  have hrev : (dir ++ c :: name).reverse = name.reverse ++ c :: dir.reverse := by simp
  rw [hrev, List.dropWhile_append_of_pos hname, List.takeWhile_append_of_pos hname]
  simp

end CourseDb

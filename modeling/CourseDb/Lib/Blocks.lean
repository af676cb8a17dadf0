import Mathlib.Tactic

/-! # Arrays of equally sized blocks in a flat file

A file is a list. Reading takes the elements from an offset on, writing puts
new elements over the old ones. In a file of blocks of one size, the block with
number `i` stands at `i * size`, and writing it leaves the other blocks alone.
-/

namespace CourseDb.Blocks

variable {α : Type} {size i : ℕ} {blocks : List (List α)} {data block : List α}

/-- The `n` elements from `off` on, or as many of them as there are. -/
def slice (file : List α) (off n : ℕ) : List α := (file.drop off).take n

/-- The file with `data` over what stood at `off`. -/
def overwrite (file : List α) (off : ℕ) (data : List α) : List α :=
  file.take off ++ (data ++ file.drop (off + data.length))

theorem slice_append (front rest : List α) (off n : ℕ) :
    slice (front ++ rest) (front.length + off) n = slice rest off n := by
  rw [slice, List.drop_length_add_append, slice]

theorem overwrite_append (front rest : List α) (off : ℕ) (data : List α) :
    overwrite (front ++ rest) (front.length + off) data = front ++ overwrite rest off data := by
  rw [overwrite, List.take_length_add_append, Nat.add_assoc, List.drop_length_add_append,
    List.append_assoc, overwrite]

theorem overwrite_front {front : List α} (rest : List α) (h : data.length = front.length) :
    overwrite (front ++ rest) 0 data = data ++ rest := by
  simp [overwrite, h]

def Uniform (size : ℕ) (blocks : List (List α)) : Prop := ∀ block ∈ blocks, block.length = size

namespace Uniform

theorem cons_iff : Uniform size (block :: blocks) ↔ block.length = size ∧ Uniform size blocks :=
  List.forall_mem_cons

section

variable (h : Uniform size blocks)
include h

theorem set (hdata : data.length = size) : Uniform size (blocks.set i data) := by
  intro b hb
  rcases List.mem_or_eq_of_mem_set hb with hb | rfl
  · exact h b hb
  · exact hdata

theorem append (hdata : data.length = size) : Uniform size (blocks ++ [data]) := by
  intro b hb
  rcases List.mem_append.mp hb with hb | hb
  · exact h b hb
  · rw [List.mem_singleton.mp hb, hdata]

theorem length_flatten : blocks.flatten.length = blocks.length * size := by
  induction blocks with
  | nil => simp
  | cons block blocks ih =>
    obtain ⟨hblock, hrest⟩ := cons_iff.mp h
    rw [List.flatten_cons, List.length_append, ih hrest, hblock, List.length_cons]
    ring

theorem slice_flatten (hi : blocks[i]? = some block) :
    slice blocks.flatten (i * size) size = block := by
  induction blocks generalizing i with
  | nil => cases hi
  | cons first blocks ih =>
    obtain ⟨hfirst, hrest⟩ := cons_iff.mp h
    cases i with
    | zero =>
      cases hi
      simp [slice, ← hfirst]
    | succ i =>
      have hoff : (i + 1) * size = first.length + i * size := by
        rw [hfirst]
        ring
      rw [List.flatten_cons, hoff, slice_append]
      exact ih hrest hi

theorem overwrite_flatten (hi : i < blocks.length) (hdata : data.length = size) :
    overwrite blocks.flatten (i * size) data = (blocks.set i data).flatten := by
  induction blocks generalizing i with
  | nil => cases hi
  | cons first blocks ih =>
    obtain ⟨hfirst, hrest⟩ := cons_iff.mp h
    cases i with
    | zero =>
      rw [List.flatten_cons, Nat.zero_mul]
      exact overwrite_front _ (hdata.trans hfirst.symm)
    | succ i =>
      have hoff : (i + 1) * size = first.length + i * size := by
        rw [hfirst]
        ring
      rw [List.flatten_cons, hoff, overwrite_append, ih hrest (Nat.lt_of_succ_lt_succ hi)]
      rfl

end

end Uniform

end CourseDb.Blocks

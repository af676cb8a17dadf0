import CourseDb.Index.BStarTree
import CourseDb.Index.NodeView

/-! # How many keys fit on a page

The smallest degree of a tree is computed from the size of a page and that of
the largest key. The size of an entry is a 64-bit sum: a key of nearly 2^64 bytes
makes it small, or zero.
-/

namespace CourseDb.BStarTree

variable {pageSize keySize degree : ℕ}

/-- A leaf with `count` keys of one size, without overflow. -/
def leafSize (count keySize : ℕ) : ℕ := nodeHeaderSize + count * (4 + keySize + 8)

/-- An internal node with `count` keys of one size and a child more, without overflow. -/
def internalSize (count keySize : ℕ) : ℕ :=
  nodeHeaderSize + count * (4 + keySize) + (count + 1) * 8

/-- `ComputeMinDegreeForPage` gets to its divisions. -/
def Divides (pageSize keySize : ℕ) : Prop := keySize ≠ 0 ∧ nodeHeaderSize + 8 < pageSize

/-- The page has room for the nodes of a degree with the largest keys, and the functions that
build pages accept all nodes with at most as many keys of at most that size. -/
structure HasRoom (pageSize keySize degree : ℕ) : Prop where
  degree_ge : 2 ≤ degree
  leaf_le : leafSize (2 * degree - 1) keySize ≤ pageSize
  internal_le : internalSize (2 * degree - 1) keySize ≤ pageSize
  buildLeaf : ∀ (cfg : Config) (header : NodeHeader) (entries : List LeafEntry),
    cfg.pageSize = pageSize → entries.length ≤ 2 * degree - 1 →
    (∀ entry ∈ entries, (KeyEncoder.encode entry.key).length ≤ keySize) →
    ∃ page, buildLeafPage cfg header entries = .ok page
  buildInternal : ∀ (cfg : Config) (header : NodeHeader) (node : InternalNodeData),
    cfg.pageSize = pageSize → node.separatorKeys.length ≤ 2 * degree - 1 →
    node.childPageIds.length = node.separatorKeys.length + 1 →
    (∀ key ∈ node.separatorKeys, (KeyEncoder.encode key).length ≤ keySize) →
    ∃ page, buildInternalPage cfg header node = .ok page

/-- No division by zero, and room for every degree that is returned. -/
structure CapacityOk (pageSize keySize : ℕ) : Prop where
  divisor_ne_zero : Divides pageSize keySize → entrySize keySize ≠ 0
  room : ∀ degree, computeMinDegreeForPage pageSize keySize = .ok degree →
    HasRoom pageSize keySize degree

/-- The degree comes from the keys of an internal node, which has a child more. -/
theorem computeMinDegreeForPage_ok :
    computeMinDegreeForPage pageSize keySize = .ok degree ↔
      Divides pageSize keySize ∧ 3 ≤ (pageSize - nodeHeaderSize - 8) / entrySize keySize ∧
        degree = ((pageSize - nodeHeaderSize - 8) / entrySize keySize + 1) / 2 := by
  have hle : (pageSize - nodeHeaderSize - 8) / entrySize keySize ≤
      (pageSize - nodeHeaderSize) / entrySize keySize := Nat.div_le_div_right (Nat.sub_le _ _)
  unfold computeMinDegreeForPage Divides
  simp only [Nat.min_eq_right hle]
  split_ifs with hkey hpage hkeys
  · simp [hkey]
  · simp [hpage]
  · simp only [false_iff]
    omega
  · simp only [Except.ok.injEq]
    omega

/-- Room for the largest internal node is room for every node. -/
theorem HasRoom.of_internal_le (hdegree : 2 ≤ degree)
    (h : internalSize (2 * degree - 1) keySize ≤ pageSize) : HasRoom pageSize keySize degree := by
  have hmono {count : ℕ} (hcount : count ≤ 2 * degree - 1) :
      count * (12 + keySize) ≤ (2 * degree - 1) * (12 + keySize) :=
    Nat.mul_le_mul_right _ hcount
  have hsize : internalSize (2 * degree - 1) keySize =
      nodeHeaderSize + 8 + (2 * degree - 1) * (12 + keySize) := by
    unfold internalSize
    ring
  rw [hsize] at h
  refine ⟨hdegree, ?_, hsize.trans_le h, ?_, ?_⟩
  · unfold leafSize
    rw [show 4 + keySize + 8 = 12 + keySize by omega]
    omega
  · intro cfg header entries hpage hcount hkeys
    have hkeys' : ∀ key ∈ entries.map LeafEntry.key,
        (KeyEncoder.encode key).length ≤ keySize := by
      simpa using hkeys
    have hsum := sum_bundleSize_le_mul hkeys'
    have hcount' := hmono hcount
    rw [List.map_map, List.length_map] at hsum
    change (entries.map fun entry => bundleSize entry.key).sum ≤ _ at hsum
    refine ⟨_, if_neg ?_⟩
    rw [leafBytes_length, hpage]
    omega
  · intro cfg header node hpage hcount hchildren hkeys
    have hsum := sum_bundleSize_le_mul hkeys
    have hcount' := hmono hcount
    unfold buildInternalPage
    refine ⟨_, (if_neg (by omega)).trans (if_neg ?_)⟩
    rw [internalBytes_length hchildren, hpage]
    omega

/-- The sizes fit exactly if the size of an entry does not overflow, or the page is refused. -/
theorem capacityOk_iff (hpage : pageSize < 2 ^ 64) (hpos : 0 < keySize) (hkey : keySize < 2 ^ 64) :
    CapacityOk pageSize keySize ↔
      keySize + 12 < 2 ^ 64 ∨ pageSize ≤ nodeHeaderSize + 8 ∨
        pageSize < nodeHeaderSize + 8 + 3 * (keySize + 12 - 2 ^ 64) := by
  by_cases hfits : keySize + 12 < 2 ^ 64
  · refine iff_of_true ?_ (.inl hfits)
    have hentry : entrySize keySize = 4 + keySize + 8 := Nat.mod_eq_of_lt (by omega)
    refine ⟨fun _ => by omega, fun degree hdegree => ?_⟩
    obtain ⟨⟨-, hheader⟩, hkeys, rfl⟩ := computeMinDegreeForPage_ok.mp hdegree
    refine .of_internal_le (by omega) ?_
    have hdiv := Nat.div_mul_le_self (pageSize - nodeHeaderSize - 8) (entrySize keySize)
    generalize (pageSize - nodeHeaderSize - 8) / entrySize keySize = keys at hkeys hdiv ⊢
    have hmul : (2 * ((keys + 1) / 2) - 1) * (4 + keySize + 8) ≤ keys * (4 + keySize + 8) :=
      Nat.mul_le_mul_right _ (by omega)
    rw [hentry] at hdiv
    unfold internalSize
    rw [show ∀ count : ℕ, nodeHeaderSize + count * (4 + keySize) + (count + 1) * 8 =
      nodeHeaderSize + 8 + count * (4 + keySize + 8) from fun count => by ring]
    omega
  · have hentry : entrySize keySize = keySize + 12 - 2 ^ 64 := by
      unfold entrySize
      omega
    rw [or_iff_right hfits]
    constructor
    · rintro ⟨hdivisor, hroom⟩
      by_contra! hcond
      obtain ⟨hheader, hthree⟩ := hcond
      have hdivides : Divides pageSize keySize := ⟨hpos.ne', hheader⟩
      have hne : 0 < entrySize keySize := Nat.pos_of_ne_zero (hdivisor hdivides)
      -- three of the entries the code counts with fit, but not one of the real ones
      have hkeys : 3 ≤ (pageSize - nodeHeaderSize - 8) / entrySize keySize := by
        rw [Nat.le_div_iff_mul_le hne, hentry]
        omega
      have hleaf := (hroom _ (computeMinDegreeForPage_ok.mpr ⟨hdivides, hkeys, rfl⟩)).leaf_le
      have hone : 1 * (4 + keySize + 8) ≤
          (2 * (((pageSize - nodeHeaderSize - 8) / entrySize keySize + 1) / 2) - 1) *
            (4 + keySize + 8) := Nat.mul_le_mul_right _ (by omega)
      unfold leafSize at hleaf
      omega
    · intro hcond
      constructor
      · rintro ⟨-, hheader⟩
        omega
      · intro degree hdegree
        obtain ⟨⟨-, hheader⟩, hkeys, -⟩ := computeMinDegreeForPage_ok.mp hdegree
        have hmul := Nat.mul_le_of_le_div _ _ _ hkeys
        omega

theorem capacityOk_int_keys :
    computeMinDegreeForPage 4096 8 = .ok 101 ∧ CapacityOk 4096 8 :=
  ⟨by decide, (capacityOk_iff (by norm_num) (by norm_num) (by norm_num)).mpr
    (.inl (by norm_num))⟩

/-- The size of an entry overflows to zero, which the code divides by, or to one. -/
theorem capacity_overflow :
    (Divides 4096 (2 ^ 64 - 12) ∧ entrySize (2 ^ 64 - 12) = 0) ∧
      (computeMinDegreeForPage 4096 (2 ^ 64 - 11) = .ok 2028 ∧
        ¬ leafSize (2 * 2028 - 1) (2 ^ 64 - 11) ≤ 4096) := by
  unfold Divides
  decide

end CourseDb.BStarTree

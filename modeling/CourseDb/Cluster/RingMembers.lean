import CourseDb.Cluster.ConsistentHash
import CourseDb.Lib.Circle
import CourseDb.Lib.Conformance

/-! # The members of a ring

After any calls of `AddNode` and `RemoveNode` the ring has the points of the
current members and no others, provided that no two points fall on the same
hash. Which node a key belongs to then depends on the members alone. Nothing
looks at a point before it is written or erased: a call leaves the points of the
other members alone exactly if none of its own points falls on one of theirs.
-/

namespace CourseDb.ConsistentHashRing

open CourseDb.Circle

variable {n : ByteString}

theorem sharp_not_mem_toString (i : ℕ) : (35 : Byte) ∉ ascii (toString i) := by
  intro h
  have hdigit := (digit_of_mem_toString h).1
  omega

/-- The number behind the last `#` tells the points of all nodes apart. -/
theorem vnodeKey_injective {m : ByteString} {i j : ℕ} (h : vnodeKey n i = vnodeKey m j) :
    n = m ∧ i = j := by
  have hkey : ∀ n i, vnodeKey n i = n ++ 35 :: ascii (toString i) := by
    intro n i
    have hsharp : ascii "#" = [35] := by decide
    simp [vnodeKey, hsharp]
  rw [hkey, hkey] at h
  obtain ⟨hn, hi⟩ := split_at_last n (sharp_not_mem_toString i)
  obtain ⟨hm, hj⟩ := split_at_last m (sharp_not_mem_toString j)
  rw [h, hm] at hn
  rw [h, hj] at hi
  refine ⟨?_, ascii_toString_injective (List.reverse_inj.mp hi.symm)⟩
  simpa using hn.symm

section Points

variable {ring : List (ℕ × ByteString)} {point : ℕ} {owner : ByteString} {p : ℕ × ByteString}

theorem mem_of_mem_insertPoint (h : p ∈ insertPoint point owner ring) :
    p = (point, owner) ∨ p ∈ ring := by
  induction ring with
  | nil => exact .inl (List.mem_singleton.mp h)
  | cons q ring ih =>
    unfold insertPoint at h
    split_ifs at h with hlt heq
    · rcases List.mem_cons.mp h with rfl | hq
      · exact .inl rfl
      · exact .inr hq
    · rcases List.mem_cons.mp h with rfl | hq
      · exact .inl rfl
      · exact .inr (List.mem_cons_of_mem q hq)
    · rcases List.mem_cons.mp h with rfl | hq
      · exact .inr (by simp)
      · exact (ih hq).imp_right (List.mem_cons_of_mem q)

theorem insertPoint_ascending (owner : ByteString) (h : Ascending (2 ^ 32) ring)
    (hpoint : point < 2 ^ 32) :
    Ascending (2 ^ 32) (insertPoint point owner ring) := by
  refine ⟨?_, fun p hp => ?_⟩
  · have hsorted := h.pairwise
    clear h
    induction ring with
    | nil => exact List.pairwise_singleton _ _
    | cons q ring ih =>
      obtain ⟨hq, hrest⟩ := List.pairwise_cons.mp hsorted
      unfold insertPoint
      split_ifs with hlt heq
      · refine List.pairwise_cons.mpr ⟨fun p hp => ?_, hsorted⟩
        rcases List.mem_cons.mp hp with rfl | hp
        · exact hlt
        · exact hlt.trans (hq p hp)
      · refine List.pairwise_cons.mpr ⟨fun p hp => ?_, hrest⟩
        exact heq ▸ hq p hp
      · refine List.pairwise_cons.mpr ⟨fun p hp => ?_, ih hrest⟩
        rcases mem_of_mem_insertPoint hp with rfl | hp
        · exact lt_of_le_of_ne (not_lt.mp hlt) (Ne.symm heq)
        · exact hq p hp
  · rcases mem_of_mem_insertPoint hp with rfl | hp
    · exact hpoint
    · exact h.lt p hp

theorem mem_insertPoint (h : Ascending (2 ^ 32) ring) :
    p ∈ insertPoint point owner ring ↔ p = (point, owner) ∨ p ∈ ring ∧ p.1 ≠ point := by
  have hsorted := h.pairwise
  clear h
  induction ring with
  | nil => simp [insertPoint]
  | cons q ring ih =>
    obtain ⟨hq, hrest⟩ := List.pairwise_cons.mp hsorted
    unfold insertPoint
    split_ifs with hlt heq
    · have hother : ∀ p ∈ q :: ring, p.1 ≠ point := by
        intro p hp
        rcases List.mem_cons.mp hp with rfl | hp
        · exact hlt.ne'
        · exact (hlt.trans (hq p hp)).ne'
      rw [List.mem_cons]
      exact or_congr_right ⟨fun hp => ⟨hp, hother p hp⟩, And.left⟩
    · have hother : ∀ p ∈ ring, p.1 ≠ point := fun p hp => heq ▸ (hq p hp).ne'
      rw [List.mem_cons, List.mem_cons]
      refine or_congr_right ⟨fun hp => ⟨.inr hp, hother p hp⟩, ?_⟩
      rintro ⟨rfl | hp, hne⟩
      · exact absurd heq.symm hne
      · exact hp
    · rw [List.mem_cons, List.mem_cons]
      constructor
      · rintro (rfl | hp)
        · exact .inr ⟨.inl rfl, fun he => heq he.symm⟩
        · exact ((ih hrest).mp hp).imp_right fun hold => ⟨.inr hold.1, hold.2⟩
      · rintro (rfl | ⟨rfl | hp, hne⟩)
        · exact .inr ((ih hrest).mpr (.inl rfl))
        · exact .inl rfl
        · exact .inr ((ih hrest).mpr (.inr ⟨hp, hne⟩))

end Points

theorem hash_lt (key : ByteString) : hash key < 2 ^ 32 := UInt32.toNat_lt _

section Loops

variable (n : ByteString) {ring : List (ℕ × ByteString)}

theorem addLoop_spec (is : List ℕ) (h : Ascending (2 ^ 32) ring) :
    Ascending (2 ^ 32)
        (is.foldl (fun ring i => insertPoint (hash (vnodeKey n i)) n ring) ring) ∧
      ∀ p, p ∈ is.foldl (fun ring i => insertPoint (hash (vnodeKey n i)) n ring) ring ↔
        (∃ i ∈ is, p = (hash (vnodeKey n i), n)) ∨
          p ∈ ring ∧ ∀ i ∈ is, p.1 ≠ hash (vnodeKey n i) := by
  induction is generalizing ring with
  | nil => simpa using h
  | cons i is ih =>
    obtain ⟨hascending, hmem⟩ := ih (insertPoint_ascending n h (hash_lt (vnodeKey n i)))
    refine ⟨hascending, fun p => ?_⟩
    rw [List.foldl_cons, hmem, mem_insertPoint h]
    constructor
    · rintro (⟨j, hj, rfl⟩ | ⟨rfl | ⟨hp, hne⟩, hrest⟩)
      · exact .inl ⟨j, by simp [hj], rfl⟩
      · exact .inl ⟨i, by simp, rfl⟩
      · exact .inr ⟨hp, List.forall_mem_cons.mpr ⟨hne, hrest⟩⟩
    · rintro (⟨j, hj, rfl⟩ | ⟨hp, hne⟩)
      · -- a later point may fall on the same hash, and is then the one that stays
        by_cases hlater : ∃ k ∈ is, hash (vnodeKey n j) = hash (vnodeKey n k)
        · obtain ⟨k, hk, heq⟩ := hlater
          exact .inl ⟨k, hk, by rw [heq]⟩
        · rcases List.mem_cons.mp hj with rfl | hj
          · push Not at hlater
            exact .inr ⟨.inl rfl, hlater⟩
          · exact absurd ⟨j, hj, rfl⟩ hlater
      · obtain ⟨hi, hrest⟩ := List.forall_mem_cons.mp hne
        exact .inr ⟨.inr ⟨hp, hi⟩, hrest⟩

theorem removeLoop_spec (is : List ℕ) (h : Ascending (2 ^ 32) ring) :
    Ascending (2 ^ 32)
        (is.foldl (fun ring i => ring.filter fun p => p.1 ≠ hash (vnodeKey n i)) ring) ∧
      ∀ p, p ∈ is.foldl (fun ring i => ring.filter fun p => p.1 ≠ hash (vnodeKey n i)) ring ↔
        p ∈ ring ∧ ∀ i ∈ is, p.1 ≠ hash (vnodeKey n i) := by
  induction is generalizing ring with
  | nil => simpa using h
  | cons i is ih =>
    have hfiltered : Ascending (2 ^ 32) (ring.filter fun p => p.1 ≠ hash (vnodeKey n i)) :=
      ⟨h.pairwise.filter _, fun p hp => h.lt p (List.mem_of_mem_filter hp)⟩
    obtain ⟨hascending, hmem⟩ := ih hfiltered
    refine ⟨hascending, fun p => ?_⟩
    rw [List.foldl_cons, hmem, List.mem_filter, decide_eq_true_eq, List.forall_mem_cons, and_assoc]

end Loops

section Members

/-- A call that changes who is in the cluster. -/
inductive Change where
  | add (nodeId : ByteString)
  | remove (nodeId : ByteString)

namespace Change

def nodeId : Change → ByteString
  | add n => n
  | remove n => n

def apply (r : ConsistentHashRing) : Change → ConsistentHashRing
  | add n => r.addNode n
  | remove n => r.removeNode n

def members (s : Finset ByteString) : Change → Finset ByteString
  | add n => insert n s
  | remove n => s.erase n

end Change

def after (v : ℕ) (changes : List Change) : ConsistentHashRing :=
  changes.foldl Change.apply { virtualNodes := v }

/-- The nodes that were added and not removed since. -/
def members (changes : List Change) : Finset ByteString := changes.foldl Change.members ∅

/-- The points of these nodes have different hashes if they have different keys. -/
def Distinct (v : ℕ) (ids : Set ByteString) : Prop :=
  Set.InjOn hash {key | ∃ n ∈ ids, ∃ i < v, key = vnodeKey n i}

variable {ids : Set ByteString}

theorem Distinct.owner_eq {v : ℕ} (h : Distinct v ids) {m : ByteString} (hn : n ∈ ids)
    (hm : m ∈ ids) {i j : ℕ} (hi : i < v) (hj : j < v)
    (heq : hash (vnodeKey n i) = hash (vnodeKey m j)) : n = m :=
  (vnodeKey_injective (h ⟨n, hn, i, hi, rfl⟩ ⟨m, hm, j, hj, rfl⟩ heq)).1

/-- No point of `n` falls on a point of another node of `s`. -/
def Apart (v : ℕ) (s : Finset ByteString) (n : ByteString) : Prop :=
  ∀ m ∈ s, m ≠ n → ∀ i < v, ∀ j < v, hash (vnodeKey m i) ≠ hash (vnodeKey n j)

instance (v : ℕ) (s : Finset ByteString) (n : ByteString) : Decidable (Apart v s n) :=
  inferInstanceAs (Decidable (∀ m ∈ s, m ≠ n → ∀ i < v, ∀ j < v,
    hash (vnodeKey m i) ≠ hash (vnodeKey n j)))

theorem Distinct.apart {v : ℕ} (h : Distinct v ids) {s : Finset ByteString}
    (hs : ∀ m ∈ s, m ∈ ids) (hn : n ∈ ids) : Apart v s n :=
  fun m hm hne _ hi _ hj heq => hne (h.owner_eq (hs m hm) hn hi hj heq)

/-- The ring has the points of the members and no others. -/
structure HasPointsOf (v : ℕ) (s : Finset ByteString) (r : ConsistentHashRing) : Prop where
  virtualNodes : r.virtualNodes = v
  ascending : Ascending (2 ^ 32) r.ring
  mem_iff : ∀ p, p ∈ r.ring ↔ ∃ n ∈ s, ∃ i < v, p = (hash (vnodeKey n i), n)

variable {v : ℕ} {s : Finset ByteString} {r : ConsistentHashRing} {ids : Set ByteString}

theorem HasPointsOf.addNode (h : HasPointsOf v s r) (hn : Apart v s n) :
    HasPointsOf v (insert n s) (r.addNode n) := by
  obtain ⟨rfl, hascending, hmem⟩ := h
  obtain ⟨hadded, hmem'⟩ := addLoop_spec n (List.range r.virtualNodes) hascending
  refine ⟨rfl, hadded, fun p => (hmem' p).trans ?_⟩
  simp only [List.mem_range, hmem]
  constructor
  · rintro (⟨i, hi, rfl⟩ | ⟨⟨m, hm, i, hi, rfl⟩, -⟩)
    · exact ⟨n, Finset.mem_insert_self n s, i, hi, rfl⟩
    · exact ⟨m, Finset.mem_insert_of_mem hm, i, hi, rfl⟩
  · rintro ⟨m, hm, i, hi, rfl⟩
    by_cases hmn : m = n
    · subst hmn
      exact .inl ⟨i, hi, rfl⟩
    · have hold := Finset.mem_of_mem_insert_of_ne hm hmn
      exact .inr ⟨⟨m, hold, i, hi, rfl⟩, hn m hold hmn i hi⟩

theorem HasPointsOf.removeNode (h : HasPointsOf v s r) (hn : Apart v s n) :
    HasPointsOf v (s.erase n) (r.removeNode n) := by
  obtain ⟨rfl, hascending, hmem⟩ := h
  obtain ⟨hremoved, hmem'⟩ := removeLoop_spec n (List.range r.virtualNodes) hascending
  refine ⟨rfl, hremoved, fun p => (hmem' p).trans ?_⟩
  simp only [List.mem_range, hmem]
  constructor
  · rintro ⟨⟨m, hm, i, hi, rfl⟩, hne⟩
    refine ⟨m, Finset.mem_erase.mpr ⟨?_, hm⟩, i, hi, rfl⟩
    rintro rfl
    exact hne i hi rfl
  · rintro ⟨m, hm, i, hi, rfl⟩
    obtain ⟨hmn, hm⟩ := Finset.mem_erase.mp hm
    exact ⟨⟨m, hm, i, hi, rfl⟩, hn m hm hmn i hi⟩

/-- Every run of changes keeps the points of the members on the ring. -/
theorem hasPointsOf_after (hids : Distinct v ids) {changes : List Change}
    (hchanges : ∀ c ∈ changes, c.nodeId ∈ ids) :
    HasPointsOf v (members changes) (after v changes) ∧ ∀ m ∈ members changes, m ∈ ids := by
  have hrun : ∀ (s : Finset ByteString) (r : ConsistentHashRing), HasPointsOf v s r →
      (∀ m ∈ s, m ∈ ids) → HasPointsOf v (changes.foldl Change.members s)
        (changes.foldl Change.apply r) ∧ ∀ m ∈ changes.foldl Change.members s, m ∈ ids := by
    induction changes with
    | nil => exact fun s r h hs => ⟨h, hs⟩
    | cons c changes ih =>
      obtain ⟨hc, hrest⟩ := List.forall_mem_cons.mp hchanges
      intro s r h hs
      cases c with
      | add n =>
        refine ih hrest _ _ (h.addNode (hids.apart hs hc)) fun m hm => ?_
        rcases Finset.mem_insert.mp hm with rfl | hm
        · exact hc
        · exact hs m hm
      | remove n =>
        exact ih hrest _ _ (h.removeNode (hids.apart hs hc)) fun m hm => hs m (Finset.mem_of_mem_erase hm)
  refine hrun ∅ { virtualNodes := v } ⟨rfl, ⟨List.Pairwise.nil, by simp⟩, by simp⟩ (by simp)

theorem distinct_pair {a b : ByteString}
    (hne : hash (vnodeKey a 0) ≠ hash (vnodeKey b 0)) : Distinct 1 {a, b} := by
  rintro _ ⟨n, hn, i, hi, rfl⟩ _ ⟨m, hm, j, hj, rfl⟩ heq
  obtain rfl : i = 0 := by omega
  obtain rfl : j = 0 := by omega
  rcases hn with rfl | rfl <;> rcases hm with rfl | rfl
  · rfl
  · exact absurd heq hne
  · exact absurd heq.symm hne
  · rfl

end Members

section Owners

variable {r r' : ConsistentHashRing} {k n : ByteString}

/-- A key belongs to the owner of the point that is nearest to its hash. -/
theorem getNode_nearest (h : Ascending (2 ^ 32) r.ring) (hne : r.ring ≠ []) (k : ByteString) :
    ∃ p, IsNearest (2 ^ 32) (hash k) r.ring p ∧ r.getNode k = p.2 := by
  obtain ⟨q, rest, hring⟩ := List.exists_cons_of_ne_nil hne
  unfold getNode
  rcases hfind : r.ring.find? (fun p => hash k ≤ p.1) with _ | p
  · rw [hring] at h hfind ⊢
    exact ⟨q, .of_head h (hash_lt k) hfind, by rw [hfind]⟩
  · exact ⟨p, .of_find h (hash_lt k) hfind, by rw [hfind]⟩

theorem getNode_eq {p : ℕ × ByteString} (h : Ascending (2 ^ 32) r.ring)
    (hp : IsNearest (2 ^ 32) (hash k) r.ring p) : r.getNode k = p.2 := by
  obtain ⟨q, hq, heq⟩ := getNode_nearest h (List.ne_nil_of_mem hp.mem) k
  rw [heq, hp.unique h (hash_lt k) hq]

theorem getNode_nil (h : r.ring = []) : r.getNode k = [] := by
  rw [getNode, h]
  rfl

/-- New points take keys over only for their owner. -/
theorem getNode_of_superset (h : Ascending (2 ^ 32) r.ring) (h' : Ascending (2 ^ 32) r'.ring)
    (hsub : ∀ p ∈ r.ring, p ∈ r'.ring) (hnew : ∀ p ∈ r'.ring, p ∈ r.ring ∨ p.2 = n) :
    r'.getNode k = r.getNode k ∨ r'.getNode k = n := by
  by_cases hne : r'.ring = []
  · have hnil : r.ring = [] := List.eq_nil_iff_forall_not_mem.mpr fun p hp => by
      simpa [hne] using hsub p hp
    exact .inl (by rw [getNode_nil hne, getNode_nil hnil])
  · obtain ⟨p, hp, heq⟩ := getNode_nearest h' hne k
    rcases hnew p hp.mem with hold | hnode
    · exact .inl (by rw [heq, getNode_eq h (hp.subset hsub hold)])
    · exact .inr (by rw [heq, hnode])

/-- Only the keys of lost points change their node. -/
theorem getNode_of_subset (h : Ascending (2 ^ 32) r.ring) (h' : Ascending (2 ^ 32) r'.ring)
    (hsub : ∀ p ∈ r'.ring, p ∈ r.ring) (hkept : ∀ p ∈ r.ring, p ∈ r'.ring ∨ p.2 = n)
    (hk : r.getNode k ≠ n) : r'.getNode k = r.getNode k := by
  by_cases hne : r.ring = []
  · have hnil : r'.ring = [] := List.eq_nil_iff_forall_not_mem.mpr fun p hp => by
      simpa [hne] using hsub p hp
    rw [getNode_nil hne, getNode_nil hnil]
  · obtain ⟨p, hp, heq⟩ := getNode_nearest h hne k
    rcases hkept p hp.mem with hold | hnode
    · rw [heq, getNode_eq h' (hp.subset hsub hold)]
    · exact absurd (heq.trans hnode) hk

variable {v : ℕ} {s : Finset ByteString}

theorem HasPointsOf.ring_eq (h : HasPointsOf v s r) (h' : HasPointsOf v s r') : r'.ring = r.ring := by
  have hnodup : ∀ {r : ConsistentHashRing}, Ascending (2 ^ 32) r.ring → r.ring.Nodup := fun h =>
    h.pairwise.imp fun {p q} hlt heq => (heq ▸ hlt).ne rfl
  have hperm : r'.ring.Perm r.ring :=
    (List.perm_ext_iff_of_nodup (hnodup h'.ascending) (hnodup h.ascending)).mpr fun p =>
      (h'.mem_iff p).trans (h.mem_iff p).symm
  exact hperm.eq_of_pairwise (fun p q _ _ hpq hqp => absurd hpq (Nat.lt_asymm hqp))
    h'.ascending.pairwise h.ascending.pairwise

/-- Consistent hashing moves only what it must. -/
theorem consistent_hashing {ids : Set ByteString} (hids : Distinct v ids) {changes : List Change}
    (hchanges : ∀ c ∈ changes, c.nodeId ∈ ids) :
    (∀ p, p ∈ (after v changes).ring ↔
      ∃ n ∈ members changes, ∃ i < v, p = (hash (vnodeKey n i), n)) ∧
    (∀ changes', (∀ c ∈ changes', c.nodeId ∈ ids) → members changes' = members changes →
      ∀ k, (after v changes').getNode k = (after v changes).getNode k) ∧
    (∀ k, (after v changes).ring ≠ [] →
      ∃ p, IsNearest (2 ^ 32) (hash k) (after v changes).ring p ∧
        (after v changes).getNode k = p.2) ∧
    (∀ n ∈ ids, ∀ k, ((after v changes).addNode n).getNode k = (after v changes).getNode k ∨
      ((after v changes).addNode n).getNode k = n) ∧
    ∀ n ∈ ids, ∀ k, (after v changes).getNode k ≠ n →
      ((after v changes).removeNode n).getNode k = (after v changes).getNode k := by
  obtain ⟨h, hs⟩ := hasPointsOf_after hids hchanges
  refine ⟨h.mem_iff, fun changes' hchanges' hmembers k => ?_, fun k hne => ?_, fun n hn k => ?_,
    fun n hn k hk => ?_⟩
  · obtain ⟨h', -⟩ := hasPointsOf_after hids hchanges'
    rw [hmembers] at h'
    simp only [getNode, h.ring_eq h']
  · exact getNode_nearest h.ascending hne k
  · have h' := h.addNode (hids.apart hs hn)
    refine getNode_of_superset h.ascending h'.ascending (fun p hp => ?_) fun p hp => ?_
    · obtain ⟨m, hm, hpoint⟩ := (h.mem_iff p).mp hp
      exact (h'.mem_iff p).mpr ⟨m, Finset.mem_insert_of_mem hm, hpoint⟩
    · obtain ⟨m, hm, i, hi, rfl⟩ := (h'.mem_iff p).mp hp
      rcases Finset.mem_insert.mp hm with rfl | hm
      · exact .inr rfl
      · exact .inl ((h.mem_iff _).mpr ⟨m, hm, i, hi, rfl⟩)
  · have h' := h.removeNode (hids.apart hs hn)
    refine getNode_of_subset h.ascending h'.ascending (fun p hp => ?_) (fun p hp => ?_) hk
    · obtain ⟨m, hm, hpoint⟩ := (h'.mem_iff p).mp hp
      exact (h.mem_iff p).mpr ⟨m, Finset.mem_of_mem_erase hm, hpoint⟩
    · obtain ⟨m, hm, i, hi, rfl⟩ := (h.mem_iff p).mp hp
      by_cases hmn : m = n
      · exact .inr hmn
      · exact .inl ((h'.mem_iff _).mpr ⟨m, Finset.mem_erase.mpr ⟨hmn, hm⟩, i, hi, rfl⟩)

theorem consistent_hashing_pair :
    ((after 1 [.add (ascii "n1")]).addNode (ascii "n2")).getNode (ascii "orders") =
        (after 1 [.add (ascii "n1")]).getNode (ascii "orders") ∨
      ((after 1 [.add (ascii "n1")]).addNode (ascii "n2")).getNode (ascii "orders") =
        ascii "n2" :=
  have hids : Distinct 1 {ascii "n1", ascii "n2"} := distinct_pair (by decide +kernel)
  have hchanges : ∀ c ∈ [Change.add (ascii "n1")],
      c.nodeId ∈ ({ascii "n1", ascii "n2"} : Set ByteString) := by simp [Change.nodeId]
  (consistent_hashing hids hchanges).2.2.2.1 (ascii "n2") (by simp) (ascii "orders")

end Owners

variable {r : ConsistentHashRing} {n : ByteString}

/-- A ring and its members, by the calls made so far. -/
structure Membership where
  ring : ConsistentHashRing
  members : Finset ByteString

namespace Membership

def empty (v : ℕ) : Membership := ⟨{ virtualNodes := v }, ∅⟩

def change (s : Membership) (c : Change) : Unit × Membership :=
  ((), ⟨c.apply s.ring, c.members s.members⟩)

/-- The points of the other members stay theirs, and the members are listed, each once. -/
structure Undisturbed (s : Membership) (c : Change) : Prop where
  points : ∀ p ∈ s.ring.ring, p.2 ∈ s.members → p.2 ≠ c.nodeId → p ∈ (s.change c).2.ring.ring
  listed : ∀ n, n ∈ (s.change c).2.ring.allNodes ↔ n ∈ (s.change c).2.members
  nodup : (s.change c).2.ring.allNodes.Nodup

end Membership

theorem mem_allNodes : n ∈ r.allNodes ↔ ∃ p ∈ r.ring, p.2 = n := by
  rw [allNodes, List.mem_mergeSort, List.mem_dedup, List.mem_map]

theorem allNodes_nodup (r : ConsistentHashRing) : r.allNodes.Nodup :=
  (List.mergeSort_perm _ _).nodup_iff.mpr (List.nodup_dedup _)

section Steps

variable {v : ℕ} {s : Membership} {c : Change}

/-- With at least one point for each, the owners of the points are the members. -/
theorem HasPointsOf.mem_allNodes {members : Finset ByteString} (h : HasPointsOf v members r)
    (hv : 1 ≤ v) : n ∈ r.allNodes ↔ n ∈ members := by
  rw [ConsistentHashRing.mem_allNodes]
  constructor
  · rintro ⟨p, hp, rfl⟩
    obtain ⟨n, hn, i, -, rfl⟩ := (h.mem_iff p).mp hp
    exact hn
  · intro hn
    exact ⟨_, (h.mem_iff _).mpr ⟨n, hn, 0, hv, rfl⟩, rfl⟩

theorem HasPointsOf.change (h : HasPointsOf v s.members s.ring)
    (hc : Apart v s.members c.nodeId) :
    HasPointsOf v (s.change c).2.members (s.change c).2.ring := by
  cases c with
  | add n => exact h.addNode hc
  | remove n => exact h.removeNode hc

theorem mem_of_change (h : HasPointsOf v s.members s.ring) {p : ℕ × ByteString}
    (hp : p ∈ (s.change c).2.ring.ring) (hne : p.2 ≠ c.nodeId) :
    ∀ i < v, p.1 ≠ hash (vnodeKey c.nodeId i) := by
  rw [← h.virtualNodes]
  cases c with
  | add n =>
    have hmem := (addLoop_spec n (List.range s.ring.virtualNodes) h.ascending).2 p
    rcases hmem.mp hp with ⟨i, -, rfl⟩ | ⟨-, hother⟩
    · exact absurd rfl hne
    · exact fun i hi => hother i (List.mem_range.mpr hi)
  | remove n =>
    have hmem := (removeLoop_spec n (List.range s.ring.virtualNodes) h.ascending).2 p
    exact fun i hi => (hmem.mp hp).2 i (List.mem_range.mpr hi)

theorem undisturbed_iff (hv : 1 ≤ v) (h : HasPointsOf v s.members s.ring) :
    s.Undisturbed c ↔ Apart v s.members c.nodeId := by
  constructor
  · intro hc m hm hne i hi j hj
    -- the point of the other member is still on the ring
    have hp : (hash (vnodeKey m i), m) ∈ s.ring.ring := (h.mem_iff _).mpr ⟨m, hm, i, hi, rfl⟩
    exact mem_of_change h (hc.points _ hp hm hne) hne j hj
  · intro hc
    have h' := h.change hc
    refine ⟨fun p hp _ hne => ?_, fun n => h'.mem_allNodes hv, allNodes_nodup _⟩
    obtain ⟨n, hn, i, hi, rfl⟩ := (h.mem_iff p).mp hp
    refine (h'.mem_iff _).mpr ⟨n, ?_, i, hi, rfl⟩
    cases c with
    | add n' => exact Finset.mem_insert_of_mem hn
    | remove n' => exact Finset.mem_erase.mpr ⟨hne, hn⟩

theorem hasPointsOf_empty (v : ℕ) : HasPointsOf v (Membership.empty v).members
    (Membership.empty v).ring :=
  ⟨rfl, ⟨List.Pairwise.nil, nofun⟩, fun p => by simp [Membership.empty]⟩

end Steps

/-- Every call of a run leaves the points of the other members alone, and lists the members,
exactly if no point of the node it names ever falls on one of theirs. -/
theorem points_undisturbed_iff (v : ℕ) (hv : 1 ≤ v) (changes : List Change) :
    Along Membership.change Membership.Undisturbed (.empty v) changes ↔
      Along Membership.change (fun s c => Apart v s.members c.nodeId) (.empty v) changes :=
  Along.iff_of_step (P := fun _ _ => True) (I := fun s => HasPointsOf v s.members s.ring)
    (fun _ _ h _ => undisturbed_iff hv h) (fun _ _ h _ hc => h.change hc) (hasPointsOf_empty v)
    (Along.of_forall_mem fun _ _ => trivial)

theorem points_undisturbed_iff_pair :
    Along Membership.change Membership.Undisturbed (.empty 1)
      [.add (ascii "n1"), .add (ascii "n2"), .remove (ascii "n1")] :=
  (points_undisturbed_iff 1 le_rfl _).mpr (by decide +kernel)

/-- With 150 points for each node, a point of the node `node-183` is taken over by the
node `node-371`. -/
theorem points_taken_over :
    let before := finalState Membership.change (.empty 150) [.add (ascii "node-183")]
    ascii "node-183" ∈ before.members ∧
      (2249701031, ascii "node-183") ∈ before.ring.ring ∧
      (2249701031, ascii "node-183") ∉ (before.change (.add (ascii "node-371"))).2.ring.ring := by
  intro before
  have hold : hash (vnodeKey (ascii "node-183") 143) = 2249701031 := by decide +kernel
  have hnew : hash (vnodeKey (ascii "node-371") 129) = 2249701031 := by decide +kernel
  have hone : HasPointsOf 150 before.members before.ring :=
    (hasPointsOf_empty 150).change fun m hm => absurd hm (Finset.notMem_empty m)
  have hmember : ascii "node-183" ∈ before.members := Finset.mem_singleton_self _
  refine ⟨hmember, (hone.mem_iff _).mpr ⟨_, hmember, 143, by decide, by rw [hold]⟩, fun hmem => ?_⟩
  exact mem_of_change hone hmem (by decide) 129 (by decide) hnew.symm

end CourseDb.ConsistentHashRing

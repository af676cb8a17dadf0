import Mathlib.Data.List.AList
import Mathlib.Tactic

/-! # Logs of keyed records

A log is replayed into a map by inserting its records in order, so that the
last record of a key wins. A map is compacted into a log by writing its values
in the order in which the container is walked.
-/

namespace CourseDb

/-- The order in which an unordered container is walked. -/
structure Iteration (α : Type) where
  order : List α → List α
  perm : ∀ l, (order l).Perm l

def Iteration.inOrder (α : Type) : Iteration α := ⟨id, fun _ => List.Perm.refl _⟩

namespace KeyedLog

variable {κ α : Type} [DecidableEq κ] {m m' : AList fun _ : κ => α} {entries : List (Σ _ : κ, α)}

def insertAll (m : AList fun _ : κ => α) (entries : List (Σ _ : κ, α)) : AList fun _ : κ => α :=
  entries.foldl (fun m e => m.insert e.1 e.2) m

theorem lookup_insertAll (m : AList fun _ : κ => α) (entries : List (Σ _ : κ, α)) (k : κ) :
    (insertAll m entries).lookup k = (entries.reverse.dlookup k).or (m.lookup k) := by
  induction entries generalizing m with
  | nil => rfl
  | cons e entries ih =>
    obtain ⟨k', a⟩ := e
    change (insertAll (m.insert k' a) entries).lookup k = _
    rw [ih, List.reverse_cons, List.dlookup_append]
    by_cases hk : k = k'
    · subst hk
      cases List.dlookup k entries.reverse <;> simp
    · simp [hk]

/-- The entries of a map may be inserted in any order, with their values changed
on the way. -/
theorem lookup_insertAll_map (h : entries.Perm m'.entries) (f : α → α) (k : κ) :
    (insertAll m (entries.map fun e => ⟨e.1, f e.2⟩)).lookup k =
      ((m'.lookup k).map f).or (m.lookup k) := by
  have hperm : entries.reverse.Perm m'.entries := (List.reverse_perm _).trans h
  have hnodup : entries.reverse.NodupKeys := (List.perm_nodupKeys hperm).mpr m'.nodupKeys
  have hmap := List.dlookup_map₂ (l := entries.reverse) (f := fun _ => f) k
  rw [List.perm_dlookup k hnodup hperm] at hmap
  rw [lookup_insertAll, ← List.map_reverse]
  exact congrArg (Option.or · _) hmap

theorem lookup_insertAll_perm (h : entries.Perm m'.entries) (k : κ) :
    (insertAll m entries).lookup k = (m'.lookup k).or (m.lookup k) := by
  simpa using lookup_insertAll_map h id k

variable (key : α → κ)

/-- The map a log is replayed into. -/
def collect (log : List α) : AList fun _ : κ => α :=
  insertAll ∅ (log.map fun a => ⟨key a, a⟩)

def latest (log : List α) (k : κ) : Option α := (collect key log).lookup k

variable {key}

theorem latest_append (log : List α) (a : α) (k : κ) :
    latest key (log ++ [a]) k = if key a = k then some a else latest key log k := by
  have hinsert : collect key (log ++ [a]) = (collect key log).insert (key a) a := by
    simp [collect, insertAll]
  rw [latest, hinsert]
  split_ifs with hk
  · rw [← hk, AList.lookup_insert]
  · rw [AList.lookup_insert_ne (Ne.symm hk), latest]

theorem mem_of_latest {log : List α} {k : κ} {a : α} (h : latest key log k = some a) :
    a ∈ log ∧ key a = k := by
  induction log using List.reverseRecOn with
  | nil => cases h
  | append_singleton log b ih =>
    rw [latest_append] at h
    split_ifs at h with hk
    · cases h
      exact ⟨by simp, hk⟩
    · exact ⟨List.mem_append_left _ (ih h).1, (ih h).2⟩

/-- A map whose values know their keys is what its compacted log is replayed into. -/
theorem latest_values (h : entries.Perm m.entries) (hkeys : ∀ k a, m.lookup k = some a → key a = k)
    (k : κ) : latest key (entries.map Sigma.snd) k = m.lookup k := by
  have hentries : (entries.map Sigma.snd).map (fun a => (⟨key a, a⟩ : Σ _ : κ, α)) = entries := by
    rw [List.map_map]
    refine (List.map_congr_left ?_).trans (List.map_id _)
    rintro ⟨k, a⟩ he
    have hlookup : m.lookup k = some a := AList.mem_lookup_iff.mpr (h.subset he)
    simp [hkeys k a hlookup]
  rw [latest, collect, hentries, lookup_insertAll_perm h]
  simp

/-- No record follows a `final` record of the same key. -/
def Final (key : α → κ) (final : α → Prop) (log : List α) : Prop :=
  log.Pairwise fun a b => key a = key b → ¬ final a

variable {final : α → Prop} {log : List α} {a : α}

theorem Final.latest_eq (h : Final key final log) (ha : a ∈ log) (hfinal : final a) :
    latest key log (key a) = some a := by
  induction log using List.reverseRecOn with
  | nil => cases ha
  | append_singleton log b ih =>
    obtain ⟨hlog, -, hlast⟩ := List.pairwise_append.mp h
    rw [latest_append]
    obtain hmem | hmem := List.mem_append.mp ha
    · rw [if_neg fun hk => hlast a hmem b (by simp) hk.symm hfinal]
      exact ih hlog hmem
    · rw [List.mem_singleton.mp hmem, if_pos rfl]

theorem Final.append (h : Final key final log)
    (hlast : ∀ b, latest key log (key a) = some b → ¬ final b) :
    Final key final (log ++ [a]) := by
  refine List.pairwise_append.mpr ⟨h, List.pairwise_singleton _ _, ?_⟩
  intro c hc b hb hk hfinal
  rw [List.mem_singleton.mp hb] at hk
  exact hlast c (hk ▸ h.latest_eq hc hfinal) hfinal

/-- A compacted log has one record for each key. -/
theorem Final.values (h : entries.Perm m.entries) (hkeys : ∀ k a, m.lookup k = some a → key a = k) :
    Final key final (entries.map Sigma.snd) := by
  have hnodup : entries.NodupKeys := (List.perm_nodupKeys h).mpr m.nodupKeys
  refine List.pairwise_map.mpr ((List.nodupKeys_iff_pairwise.mp hnodup).imp_of_mem ?_)
  rintro ⟨k, a⟩ ⟨k', b⟩ ha hb hne hk
  have hka := hkeys k a (AList.mem_lookup_iff.mpr (h.subset ha))
  have hkb := hkeys k' b (AList.mem_lookup_iff.mpr (h.subset hb))
  exact absurd (hka ▸ hkb ▸ hk) hne

end KeyedLog

end CourseDb

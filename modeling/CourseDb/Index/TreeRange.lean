import CourseDb.Index.TreeShape

/-! # Range search

A range search enters the chain of leaves where the search for its lower bound
ends, and follows the links until a key lies past the upper bound. What it passes
over before and behind lies outside of the range.
-/

namespace CourseDb.BStarTree

open Fallible (read_bind bind_ok bind_error)
open BTree

variable {cfg : Config} {s : BStarTree} {m : TreeMetadata} {M : NodeCells} {H : ℕ}
  {E : List LeafEntry} {range : KeyRange} {key : Value}

/-- The key lies within the bounds of the range. -/
def KeyRange.Contains (range : KeyRange) (key : Value) : Prop :=
  (∀ low ∈ range.low, if range.includeLow then low ≤ key else low < key) ∧
    ∀ high ∈ range.high, if range.includeHigh then key ≤ high else key < high

theorem fitsInRange_iff : fitsInRange key range = true ↔ range.Contains key := by
  obtain ⟨low, high, includeLow, includeHigh⟩ := range
  rw [fitsInRange, Bool.and_eq_true, KeyRange.Contains]
  refine and_congr ?_ ?_
  · cases low with
    | none => simp
    | some low => cases includeLow <;> simp [Value.less_eq_decide]
  · cases high with
    | none => simp
    | some high => cases includeHigh <;> simp [Value.less_eq_decide]

/-- Behind a key past the upper bound nothing is in the range. -/
theorem not_fits_of_pastHigh {key' : Value} (h : pastHigh key range = true) (hle : key ≤ key') :
    fitsInRange key' range = false := by
  rw [← Bool.not_eq_true, fitsInRange_iff]
  rintro ⟨-, hhigh⟩
  obtain ⟨low, high, includeLow, includeHigh⟩ := range
  cases high with
  | none => exact Bool.false_ne_true h
  | some high =>
    have hkey' := hhigh high rfl
    cases includeHigh with
    | false =>
      have hpast : high ≤ key := by simpa [pastHigh, Value.less_eq_decide] using h
      exact absurd (hpast.trans hle) (not_le.mpr (by simpa using hkey'))
    | true =>
      have hpast : high < key := by simpa [pastHigh, Value.less_eq_decide] using h
      exact absurd (hpast.trans_le hle) (not_lt.mpr (by simpa using hkey'))

theorem not_fits_of_lt_low {low : Value} (hlow : range.low = some low) (hlt : key < low) :
    fitsInRange key range = false := by
  rw [← Bool.not_eq_true, fitsInRange_iff]
  rintro ⟨hbound, -⟩
  have hkey := hbound low hlow
  split_ifs at hkey with hincl
  · exact absurd hkey (not_le.mpr hlt)
  · exact absurd hkey (not_lt.mpr hlt.le)

/-- The row ids of the entries in the range, in the order of the list. -/
def ridsInRange (range : KeyRange) (entries : List LeafEntry) : List ℕ :=
  (entries.filter fun entry => fitsInRange entry.key range).map LeafEntry.rid

theorem ridsInRange_cons (e : LeafEntry) (entries : List LeafEntry) :
    ridsInRange range (e :: entries) =
      if fitsInRange e.key range then e.rid :: ridsInRange range entries
      else ridsInRange range entries := by
  unfold ridsInRange
  rw [List.filter_cons]
  split_ifs <;> rfl

theorem ridsInRange_append (x y : List LeafEntry) :
    ridsInRange range (x ++ y) = ridsInRange range x ++ ridsInRange range y := by
  simp [ridsInRange]

theorem ridsInRange_eq_nil {entries : List LeafEntry}
    (h : ∀ e ∈ entries, fitsInRange e.key range = false) : ridsInRange range entries = [] := by
  simpa [ridsInRange] using h

/-- The loop over one leaf collects what is in the range. It ends the search
only when nothing behind it is in the range. -/
theorem collectEntries_eq (range : KeyRange) {entries later : List LeafEntry}
    (hsorted : (entries ++ later).Pairwise fun a b => a.key < b.key) :
    ∃ more, collectEntries range entries = (ridsInRange range entries, more) ∧
      (more = false → ridsInRange range later = []) := by
  induction entries with
  | nil => exact ⟨true, rfl, by simp⟩
  | cons e entries ih =>
    obtain ⟨he, htail⟩ := List.pairwise_cons.mp hsorted
    obtain ⟨more, hcollect, hmore⟩ := ih htail
    rw [collectEntries, ridsInRange_cons]
    by_cases hpast : pastHigh e.key range = true
    · have hself := not_fits_of_pastHigh hpast le_rfl
      have hbehind : ∀ e' ∈ entries ++ later, fitsInRange e'.key range = false :=
        fun e' he' => not_fits_of_pastHigh hpast (he e' he').le
      refine ⟨false, ?_, fun _ => ridsInRange_eq_nil fun e' he' =>
        hbehind e' (List.mem_append_right _ he')⟩
      rw [if_pos hpast, hself, if_neg Bool.false_ne_true,
        ridsInRange_eq_nil fun e' he' => hbehind e' (List.mem_append_left _ he')]
    · exact ⟨more, by rw [if_neg hpast, hcollect], hmore⟩

/-- The loop over the leaves collects what is in the range from its first leaf on. -/
theorem collectLeaves_eq {leaves : List (Leaf LeafEntry)} {current fuel : ℕ}
    (hs : Holds cfg s m M)
    (hcells : ∀ l ∈ leaves, ∃ isRoot, (l.id, .leaf isRoot l.next l.entries) ∈ M)
    (hleads : Leads current (leaves.map fun l => (l.id, l.next)) invalidPageId)
    (hsorted : (leaves.flatMap Leaf.entries).Pairwise fun a b => a.key < b.key)
    (hfuel : leaves.length < fuel) :
    collectLeaves range fuel current s =
      (.ok (ridsInRange range (leaves.flatMap Leaf.entries)), s) := by
  induction leaves generalizing current fuel with
  | nil =>
    obtain ⟨fuel, rfl⟩ : ∃ n, fuel = n + 1 := ⟨fuel - 1, by omega⟩
    have hend : current = invalidPageId := hleads
    rw [collectLeaves, if_pos hend]
    rfl
  | cons l leaves ih =>
    obtain ⟨fuel, rfl⟩ : ∃ n, fuel = n + 1 := ⟨fuel - 1, by omega⟩
    obtain ⟨hcurrent, hrest⟩ := hleads
    obtain rfl : current = l.id := hcurrent
    obtain ⟨isRoot, hmem⟩ := hcells l List.mem_cons_self
    have hne : l.id ≠ invalidPageId := by
      have hlt : l.id < 2 ^ 63 := hs.id_lt hmem
      rw [invalidPageId]
      omega
    obtain ⟨header, hread, -, -, -, hnext⟩ := hs.readLeaf hmem
    rw [List.flatMap_cons] at hsorted
    obtain ⟨more, hcollect, hmore⟩ := collectEntries_eq range hsorted
    have hlater := ih (fun l' hl' => hcells l' (List.mem_cons_of_mem _ hl')) hrest
      (List.pairwise_append.mp hsorted).2.1 (by simpa using hfuel)
    rw [collectLeaves, if_neg hne, bind_ok hread]
    simp only [hcollect, hnext]
    rw [List.flatMap_cons, ridsInRange_append]
    cases more with
    | true =>
      rw [if_pos rfl, bind_ok hlater]
      rfl
    | false =>
      rw [if_neg Bool.false_ne_true, hmore rfl, List.append_nil]
      rfl

theorem validateBound_snd (bound : Option Value) (s : BStarTree) :
    (validateBound bound s).2 = s := by
  cases bound with
  | none => rfl
  | some key =>
    rw [validateBound, validateKeyType, read_bind]
    split_ifs <;> rfl

theorem validateRange_snd (range : KeyRange) (s : BStarTree) : (validateRange range s).2 = s := by
  have hlow := validateBound_snd range.low s
  have hhigh := validateBound_snd range.high s
  unfold validateRange
  cases hl : (validateBound range.low s).1 with
  | error e => rw [bind_error (Prod.ext hl hlow)]
  | ok _ =>
    rw [bind_ok (Prod.ext hl hlow)]
    cases hh : (validateBound range.high s).1 with
    | error e => rw [bind_error (Prod.ext hh hhigh)]
    | ok _ =>
      rw [bind_ok (Prod.ext hh hhigh)]
      split_ifs <;> rfl

/-- The leaves from which a search starts on: what lies before them is not in the range. -/
theorem Stored.firstLeafInRange {T : IndexTree H} (hst : Stored cfg s m E T) (range : KeyRange) :
    ∃ before after current, T.leaves = before ++ after ∧
      firstLeafInRange range s = (.ok current, s) ∧
      Leads current (after.map fun l => (l.id, l.next)) invalidPageId ∧
      ridsInRange range (before.flatMap Leaf.entries) = [] := by
  have hshows := hst.shows
  have hleads := hshows.leads
  rw [Tree.links_flat] at hleads
  cases hlow : range.low with
  | none =>
    refine ⟨[], T.leaves, m.firstLeafPageId, rfl, ?_, hleads, rfl⟩
    rw [BStarTree.firstLeafInRange, hlow]
    dsimp only
    rw [read_bind, hst.holds.metadata_eq]
    rfl
  | some low =>
    obtain ⟨C, id, next, entries, rfl, hrouted, hfind⟩ :=
      findPathToLeaf_eq low hst.holds hst.root_eq
    have hleaves := C.leaves_plug (Tree.leaf id next entries)
    rw [Tree.leaves_leaf, List.singleton_append] at hleaves
    refine ⟨C.leavesBefore, ⟨id, next, entries⟩ :: C.leavesAfter, id, hleaves, ?_, ?_, ?_⟩
    · rw [BStarTree.firstLeafInRange, hlow]
      exact bind_ok hfind
    · rw [hleaves, List.map_append, leads_append] at hleads
      obtain ⟨c, -, hc⟩ := hleads
      obtain rfl : c = id := hc.1
      exact hc
    · rw [← C.entries_before]
      have hsorted := hshows.sorted
      rw [Ctx.flat_plug] at hsorted
      obtain ⟨hbefore, -⟩ := hrouted.bounds hsorted
      exact ridsInRange_eq_nil fun e he => not_fits_of_lt_low hlow (hbefore _ (mem_entries.mp he))

theorem Represents.pairwise (hrep : Represents cfg s E) :
    E.Pairwise fun a b => a.key < b.key := by
  cases hrep with
  | empty hs hroot hfirst hheight => exact List.Pairwise.nil
  | tree hst =>
    have hkeys := hst.shows.sorted.entries_pairwise
    rw [hst.shows.entries_eq, List.pairwise_map] at hkeys
    exact hkeys

/-- A range search on a tree filters its entries. -/
theorem rangeSearch_eq (hrep : Represents cfg s E) (hrange : (validateRange range s).1 = .ok ()) :
    rangeSearch range s = (.ok (ridsInRange range E), s) := by
  have hvalid : validateRange range s = (.ok (), s) := Prod.ext hrange (validateRange_snd range s)
  have hsorted := hrep.pairwise
  unfold rangeSearch
  rw [read_bind]
  cases hrep with
  | empty hs hroot hfirst hheight =>
    rw [hs.isOpen, if_neg (by simp), bind_ok hvalid, hs.metadata_eq, if_pos hroot]
    rfl
  | tree hst =>
    rename_i T
    obtain ⟨before, after, current, hleaves, hfirst, hleads, hnone⟩ :=
      hst.firstLeafInRange range
    have hE : E = before.flatMap Leaf.entries ++ after.flatMap Leaf.entries := by
      rw [← hst.shows.entries_eq, T.entries_flat, hleaves, List.flatMap_append]
    have hcells : ∀ l ∈ after, ∃ isRoot, (l.id, .leaf isRoot l.next l.entries) ∈ T.cells true :=
      fun l hl => T.leaf_mem_cells true (by rw [hleaves]; exact List.mem_append_right _ hl)
    have hfuel : after.length < s.pageManager.pages.length + 1 := by
      have hle := Multiset.card_le_card (T.leafIds_le true)
      have hcard := hst.holds.card_le
      rw [Multiset.coe_card, List.length_map, hleaves, List.length_append, Multiset.card_map] at hle
      omega
    rw [hE, List.pairwise_append] at hsorted
    rw [hst.holds.isOpen, if_neg (by simp), bind_ok hvalid, if_neg hst.root_ne,
      bind_ok hfirst,
      collectLeaves_eq hst.holds hcells hleads hsorted.2.1 hfuel, hE, ridsInRange_append, hnone,
      List.nil_append]

section Runs

variable {a : KeyMap}

/-- The map after a call, by the answer to it. -/
def KeyMap.after (a : KeyMap) : Op × Answer → KeyMap
  | (.insert key rid, .ok) => Function.update a key (some rid)
  | (.delete key, .ok) => Function.update a key none
  | _ => a

/-- What a run has stored: the keys inserted and not deleted since. -/
def storedBy (calls : List (Op × Answer)) : KeyMap := calls.foldl KeyMap.after fun _ => none

theorem MapSpec.after_eq {a' : KeyMap} {op : Op} {out : Answer} (h : MapSpec a op out a') :
    a' = a.after (op, out) := by
  cases op with
  | insert key rid =>
    unfold MapSpec at h
    cases hkey : a key <;> simp only [hkey] at h <;> obtain ⟨rfl, rfl⟩ := h <;> rfl
  | delete key =>
    unfold MapSpec at h
    cases hkey : a key <;> simp only [hkey] at h <;> obtain ⟨rfl, rfl⟩ := h <;> rfl
  | find key => exact h.2
  | reopen => exact h.2

theorem Refines.run (hv : cfg.Valid) (hsize : cfg.pageSize < 2 ^ 63) (href : Refines cfg s a)
    {ops : List Op} (hops : Along step (Usable cfg) s ops) :
    Refines cfg (finalState step s ops) ((trace step s ops).foldl KeyMap.after a) := by
  induction ops generalizing s a with
  | nil => exact href
  | cons op ops ih =>
    obtain ⟨a', hspec, hnext⟩ := step_refines hv href hsize op hops.1
    rw [hspec.after_eq] at hnext
    exact ih hnext hops.2

theorem mem_iff_ridOf (hsorted : E.Pairwise fun a b => a.key < b.key) {rid : ℕ} :
    ridOf E key = some rid ↔ ⟨key, rid⟩ ∈ E := by
  unfold ridOf lookup
  constructor
  · intro h
    obtain ⟨e, he, rfl⟩ := Option.map_eq_some_iff.mp h
    obtain rfl : e.key = key := by simpa using List.find?_some he
    exact List.mem_of_find?_eq_some he
  · intro hmem
    induction E with
    | nil => cases hmem
    | cons e E ih =>
      obtain ⟨hhead, htail⟩ := List.pairwise_cons.mp hsorted
      rcases List.mem_cons.mp hmem with rfl | hmem
      · simp
      · rw [List.find?_cons_of_neg (by simpa using (hhead _ hmem).ne)]
        exact ih htail hmem

/-- In every state that an index on a new file reaches with short keys, a range
search returns the row ids of the stored keys in the range, in ascending order of
the keys. -/
theorem rangeSearch_filters_map {maxVariable : ℕ} {s₀ : BStarTree} (hfresh : Fresh cfg maxVariable s₀)
    (ops : List Op) (hops : Along step (Usable cfg) s₀ ops) (range : KeyRange)
    (hrange : (validateRange range (finalState step s₀ ops)).1 = .ok ()) :
    ∃ hits : List (Value × ℕ), hits.Pairwise (fun p q => p.1 < q.1) ∧
      (∀ key rid, (key, rid) ∈ hits ↔
        storedBy (trace step s₀ ops) key = some rid ∧ range.Contains key) ∧
      rangeSearch range (finalState step s₀ ops) =
        (.ok (hits.map Prod.snd), finalState step s₀ ops) := by
  obtain ⟨hv, hsize, rfl⟩ := hfresh.initial
  have hinitial : Refines cfg (initial cfg) fun _ => none := ⟨[], initial_represents cfg, rfl⟩
  obtain ⟨E, hrep, hE⟩ := hinitial.run hv hsize hops
  have hsorted := hrep.pairwise
  refine ⟨(E.filter fun e => fitsInRange e.key range).map fun e => (e.key, e.rid), ?_, ?_, ?_⟩
  · exact List.pairwise_map.mpr (hsorted.sublist List.filter_sublist)
  · intro key rid
    rw [storedBy, ← hE, mem_iff_ridOf hsorted, ← fitsInRange_iff]
    simp only [List.mem_map, List.mem_filter, Prod.mk.injEq]
    constructor
    · rintro ⟨e, ⟨hmem, hfit⟩, rfl, rfl⟩
      exact ⟨hmem, hfit⟩
    · rintro ⟨hmem, hfit⟩
      exact ⟨_, ⟨hmem, hfit⟩, rfl, rfl⟩
  · rw [rangeSearch_eq hrep hrange, ridsInRange, List.map_map]
    rfl

theorem rangeSearch_filters_map_int :
    ∃ hits : List (Value × ℕ), hits.Pairwise (fun p q => p.1 < q.1) ∧
      (∀ key rid, (key, rid) ∈ hits ↔
        storedBy (trace step (initial smallConfig) splitAndMerge) key = some rid ∧
          KeyRange.Contains ⟨some (.int 2), some (.int 5), true, false⟩ key) ∧
      rangeSearch ⟨some (.int 2), some (.int 5), true, false⟩
          (finalState step (initial smallConfig) splitAndMerge) =
        (.ok (hits.map Prod.snd), finalState step (initial smallConfig) splitAndMerge) :=
  rangeSearch_filters_map smallConfig_fresh splitAndMerge splitAndMerge_usable _ (by decide +kernel)

end Runs

section LongKey

variable {n : ℕ}

def keysFrom (low : Value) : KeyRange := { low := some low }

theorem keysFrom_contains (key : Value) : (keysFrom key).Contains key := by
  simp [KeyRange.Contains, keysFrom]

theorem storedBy_insert (key : Value) (rid : ℕ) :
    storedBy [(.insert key rid, .ok)] key = some rid := by
  rw [storedBy, List.foldl_cons, List.foldl_nil, KeyMap.after, Function.update_self]

theorem zeros_missed (h : LosesLength cfg n) :
    trace step (initial cfg) [.insert (zeros n) 0] = [(.insert (zeros n) 0, .ok)] ∧
      (validateRange (keysFrom (zeros n))
        (finalState step (initial cfg) [.insert (zeros n) 0])).1 = .ok () ∧
      (rangeSearch (keysFrom (zeros n))
        (finalState step (initial cfg) [.insert (zeros n) 0])).1 = .ok [] := by
  obtain ⟨s', m', rootPage, hinsert, hstored⟩ := insert_zeros h
  have hvalid : validateRange (keysFrom (zeros n)) s' = (.ok (), s') := by
    refine (bind_ok (h.validate hstored.holds)).trans ?_
    rfl
  have hmissed : ridsInRange (keysFrom (zeros n)) [⟨zeros 0, 0⟩] = [] :=
    ridsInRange_eq_nil fun e he => by
      rw [List.mem_singleton.mp he]
      exact not_fits_of_lt_low rfl (zeros_lt h.ne_zero)
  have hsearch := rangeSearch_eq (.tree hstored) (congrArg Prod.fst hvalid)
  rw [hmissed] at hsearch
  simp only [trace, finalState, step, hinsert, Prod.map, id, answer, hvalid, hsearch, and_self]

theorem rangeSearch_misses_long_key :
    Fresh longKeyConfig (2 ^ 32) (initial longKeyConfig) ∧
    Accepted longKeyConfig (zeros (2 ^ 32)) ∧
    storedBy (trace step (initial longKeyConfig) [.insert (zeros (2 ^ 32)) 0]) (zeros (2 ^ 32)) =
      some 0 ∧
    (keysFrom (zeros (2 ^ 32))).Contains (zeros (2 ^ 32)) ∧
    (validateRange (keysFrom (zeros (2 ^ 32)))
      (finalState step (initial longKeyConfig) [.insert (zeros (2 ^ 32)) 0])).1 = .ok () ∧
    (rangeSearch (keysFrom (zeros (2 ^ 32)))
      (finalState step (initial longKeyConfig) [.insert (zeros (2 ^ 32)) 0])).1 = .ok [] := by
  obtain ⟨htrace, hmissed⟩ := zeros_missed longKeyConfig_losesLength
  refine ⟨longKeyConfig_fresh, (zeros_lost longKeyConfig_losesLength).1, ?_, keysFrom_contains _, hmissed⟩
  rw [htrace, storedBy_insert]

end LongKey

end CourseDb.BStarTree

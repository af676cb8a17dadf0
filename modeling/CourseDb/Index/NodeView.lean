import CourseDb.Index.TreePage
import CourseDb.Storage.PageManager

/-! # What a tree page holds

The view of a page is the node it holds without its parent pointer, which no
operation of the tree reads. Building a page and parsing it again gives back
the node, provided that its keys and counts respect the 32-bit fields.
-/

namespace CourseDb.BStarTree

open Codec

variable {cfg : Config} {entries : List LeafEntry} {header : NodeHeader} {node : InternalNodeData}

/-- A key that the page codec of the tree returns unchanged. -/
structure KeyOk (cfg : Config) (key : Value) : Prop where
  type_eq : key.type = cfg.keyType
  length_lt : (KeyEncoder.encode key).length < 2 ^ 32
  length_le : (KeyEncoder.encode key).length ≤ cfg.maxKeyPayloadBytes

theorem deserializeSeparatorKey_decodes {key : Value} (h : KeyOk cfg key) :
    Decodes (deserializeSeparatorKey cfg) (serializeSeparatorKey key) key := by
  refine (readUint32_decodes h.length_lt).bind (Gives.ensure le_rfl ((Decodes.take _).map ?_))
  rw [← h.type_eq, KeyEncoder.decode_encode]
  exact Decodes.pure key

theorem deserializeLeafEntry_decodes {entry : LeafEntry} (h : KeyOk cfg entry.key)
    (hrid : entry.rid < 2 ^ 64) :
    Decodes (deserializeLeafEntry cfg) (serializeLeafEntry entry) entry := by
  have hentry : serializeLeafEntry entry =
      serializeSeparatorKey entry.key ++ writeUint64 entry.rid := by
    rw [serializeLeafEntry, serializeSeparatorKey, List.append_assoc]
  rw [hentry]
  exact (deserializeSeparatorKey_decodes h).bind ((readUint64_decodes hrid).map (Decodes.pure _))

theorem deserializeBundle_decodes {bundle : Value × ℕ} (h : KeyOk cfg bundle.1)
    (hchild : bundle.2 < 2 ^ 64) :
    Decodes (deserializeBundle cfg) (serializeBundle bundle) bundle :=
  (deserializeSeparatorKey_decodes h).bind ((readUint64_decodes hchild).map (Decodes.pure _))

theorem serializeNodeHeader_length (h : NodeHeader) :
    (serializeNodeHeader h).length = nodeHeaderSize := by
  simp [serializeNodeHeader, treeNodeMagic, nodeHeaderSize]

theorem invalidPageId_lt : invalidPageId < 2 ^ 64 := by
  decide

structure HeaderOk (h : NodeHeader) : Prop where
  parent_lt : h.parentPageId < 2 ^ 64
  next_lt : h.nextLeafPageId < 2 ^ 64

theorem deserializeNodeHeader_append {h : NodeHeader} (hok : HeaderOk h)
    (hcount : h.keyCount < 2 ^ 32) (post : ByteString) :
    deserializeNodeHeader (serializeNodeHeader h ++ post) = .ok h := by
  have hroot : Decodes readUint8 (writeBool h.isRoot) (if h.isRoot then 1 else 0) :=
    Decodes.uint _ (by split <;> omega)
  have hdec : Decodes readNodeHeader
      (writeUint32 h.type.code ++ (writeUint32 h.keyCount ++ (writeUint64 h.parentPageId ++
        (writeUint64 h.nextLeafPageId ++ writeBool h.isRoot)))) h := by
    refine (readUint32_decodes (by cases h.type <;> decide)).bind
      ((readUint32_decodes hcount).bind ((readUint64_decodes hok.parent_lt).bind
        ((readUint64_decodes hok.next_lt).bind (hroot.map ?_))))
    obtain ⟨type, keyCount, parentPageId, nextLeafPageId, isRoot⟩ := h
    cases type <;> cases isRoot <;> exact Decodes.pure _
  have hread := hdec.front treeNodeMagic post rfl
  unfold deserializeNodeHeader
  rw [if_neg (by rw [List.length_append, serializeNodeHeader_length]; omega),
    if_neg (by simp [serializeNodeHeader])]
  rw [serializeNodeHeader, List.append_assoc, hread]
  rfl

/-- The bytes of a separator, or of an entry, with the integer after the key. -/
def bundleSize (key : Value) : ℕ := 12 + (KeyEncoder.encode key).length

/-- Keys of a bounded size take at most as much as that many of the largest. -/
theorem sum_bundleSize_le_mul {keys : List Value} {size : ℕ}
    (h : ∀ key ∈ keys, (KeyEncoder.encode key).length ≤ size) :
    (keys.map bundleSize).sum ≤ keys.length * (12 + size) := by
  have hle := List.sum_le_card_nsmul (keys.map bundleSize) (12 + size) (by
    intro n hn
    obtain ⟨key, hkey, rfl⟩ := List.mem_map.mp hn
    exact Nat.add_le_add_left (h key hkey) 12)
  simpa using hle

theorem serializeLeafEntry_length (entry : LeafEntry) :
    (serializeLeafEntry entry).length = bundleSize entry.key := by
  simp [serializeLeafEntry, bundleSize]
  omega

theorem serializeBundle_length (bundle : Value × ℕ) :
    (serializeBundle bundle).length = bundleSize bundle.1 := by
  simp [serializeBundle, serializeSeparatorKey, bundleSize]
  omega

/-- Entries that a leaf page can hold. -/
structure EntriesOk (cfg : Config) (entries : List LeafEntry) : Prop where
  count_lt : entries.length < 2 ^ 32
  keys_ok : ∀ entry ∈ entries, KeyOk cfg entry.key
  rids_lt : ∀ entry ∈ entries, entry.rid < 2 ^ 64
  size_le : nodeHeaderSize + (entries.map fun entry => bundleSize entry.key).sum ≤ cfg.pageSize

theorem leafBytes_length (header : NodeHeader) (entries : List LeafEntry) :
    (leafBytes header entries).length =
      nodeHeaderSize + (entries.map fun entry => bundleSize entry.key).sum := by
  rw [leafBytes, List.length_append, serializeNodeHeader_length, List.length_flatMap]
  simp only [serializeLeafEntry_length]

theorem buildLeafPage_ok (header : NodeHeader) (h : EntriesOk cfg entries) :
    buildLeafPage cfg header entries = .ok (fillPage cfg (leafBytes header entries)) := by
  have hsize := h.size_le
  unfold buildLeafPage
  rw [if_neg (by rw [leafBytes_length]; omega)]

theorem leafPage_eq (cfg : Config) (header : NodeHeader) (entries : List LeafEntry) :
    ∃ pad, fillPage cfg (leafBytes header entries) =
      serializeNodeHeader { header with type := .kLeaf, keyCount := entries.length } ++
        (entries.flatMap serializeLeafEntry ++ pad) :=
  ⟨_, by rw [fillPage, leafBytes, List.append_assoc]⟩

theorem deserializeNodeHeader_leafPage (cfg : Config) (hok : HeaderOk header)
    (hcount : entries.length < 2 ^ 32) :
    deserializeNodeHeader (fillPage cfg (leafBytes header entries)) =
      .ok { header with type := .kLeaf, keyCount := entries.length } := by
  obtain ⟨pad, hpage⟩ := leafPage_eq cfg header entries
  have hok' : HeaderOk { header with type := .kLeaf, keyCount := entries.length } :=
    ⟨hok.parent_lt, hok.next_lt⟩
  rw [hpage]
  exact deserializeNodeHeader_append hok' hcount _

theorem parseLeafPage_build (hok : HeaderOk header) (h : EntriesOk cfg entries) :
    parseLeafPage cfg (fillPage cfg (leafBytes header entries)) =
      .ok ({ header with type := .kLeaf, keyCount := entries.length }, entries) := by
  have hheader := deserializeNodeHeader_leafPage cfg hok h.count_lt
  have hentries : Decodes (Reader.times (deserializeLeafEntry cfg) entries.length)
      (entries.flatMap serializeLeafEntry) entries :=
    Decodes.times fun entry hmem =>
      deserializeLeafEntry_decodes (h.keys_ok entry hmem) (h.rids_lt entry hmem)
  obtain ⟨pad, hpage⟩ := leafPage_eq cfg header entries
  have hread := hentries.front _ pad (serializeNodeHeader_length
    { header with type := .kLeaf, keyCount := entries.length })
  rw [← hpage] at hread
  unfold parseLeafPage
  rw [hheader]
  simp only [bind, Except.bind, ne_eq, not_true_eq_false, if_false, hread]
  rfl

/-- A branch that an internal page can hold. -/
structure BranchOk (cfg : Config) (node : InternalNodeData) : Prop where
  count_lt : node.separatorKeys.length < 2 ^ 32
  children : node.childPageIds.length = node.separatorKeys.length + 1
  keys_ok : ∀ key ∈ node.separatorKeys, KeyOk cfg key
  ids_lt : ∀ id ∈ node.childPageIds, id < 2 ^ 64
  size_le : nodeHeaderSize + 8 + (node.separatorKeys.map bundleSize).sum ≤ cfg.pageSize

theorem internalBytes_length (h : node.childPageIds.length = node.separatorKeys.length + 1) :
    (internalBytes header node).length =
      nodeHeaderSize + 8 + (node.separatorKeys.map bundleSize).sum := by
  have hzip : (node.separatorKeys.zip node.childPageIds.tail).map (fun b => bundleSize b.1) =
      node.separatorKeys.map bundleSize := by
    rw [show (fun b : Value × ℕ => bundleSize b.1) = bundleSize ∘ Prod.fst from rfl,
      ← List.map_map, List.map_fst_zip (by rw [List.length_tail]; omega)]
  rw [internalBytes, List.length_append, List.length_append, serializeNodeHeader_length,
    writeUint64_length, List.length_flatMap]
  simp only [serializeBundle_length, hzip]
  omega

theorem buildInternalPage_ok (header : NodeHeader) (h : BranchOk cfg node) :
    buildInternalPage cfg header node = .ok (fillPage cfg (internalBytes header node)) := by
  have hsize := h.size_le
  unfold buildInternalPage
  rw [if_neg (by rw [h.children]; omega), if_neg (by rw [internalBytes_length h.children]; omega)]

theorem internalPage_eq (cfg : Config) (header : NodeHeader) (node : InternalNodeData) :
    ∃ pad, fillPage cfg (internalBytes header node) =
      serializeNodeHeader
        { header with
          type := .kInternal
          keyCount := node.separatorKeys.length
          nextLeafPageId := invalidPageId } ++
        (writeUint64 (node.childPageIds.headD 0) ++
          ((node.separatorKeys.zip node.childPageIds.tail).flatMap serializeBundle ++ pad)) :=
  ⟨_, by rw [fillPage, internalBytes, List.append_assoc, List.append_assoc]⟩

theorem deserializeNodeHeader_internalPage (cfg : Config) (hok : HeaderOk header)
    (hcount : node.separatorKeys.length < 2 ^ 32) :
    deserializeNodeHeader (fillPage cfg (internalBytes header node)) =
      .ok { header with
            type := .kInternal
            keyCount := node.separatorKeys.length
            nextLeafPageId := invalidPageId } := by
  obtain ⟨pad, hpage⟩ := internalPage_eq cfg header node
  have hok' : HeaderOk
      { header with
        type := .kInternal
        keyCount := node.separatorKeys.length
        nextLeafPageId := invalidPageId } :=
    ⟨hok.parent_lt, invalidPageId_lt⟩
  rw [hpage]
  exact deserializeNodeHeader_append hok' hcount _

theorem parseInternalPage_build (hok : HeaderOk header) (h : BranchOk cfg node) :
    parseInternalPage cfg (fillPage cfg (internalBytes header node)) =
      .ok ({ header with
             type := .kInternal
             keyCount := node.separatorKeys.length
             nextLeafPageId := invalidPageId }, node) := by
  have hheader := deserializeNodeHeader_internalPage cfg hok h.count_lt
  obtain ⟨seps, children⟩ := node
  obtain ⟨hcount, hchildren, hkeys, hids, -⟩ := h
  cases children with
  | nil => simp at hchildren
  | cons first rest =>
    simp only [List.length_cons, Nat.add_right_cancel_iff] at hchildren
    have hfirst : Decodes readUint64 (writeUint64 first) first :=
      readUint64_decodes (hids first (by simp))
    have hlen : (seps.zip rest).length = seps.length := by
      rw [List.length_zip, hchildren, Nat.min_self]
    have hbundles : Decodes (Reader.times (deserializeBundle cfg) (seps.zip rest).length)
        ((seps.zip rest).flatMap serializeBundle) (seps.zip rest) := by
      refine Decodes.times fun bundle hmem => ?_
      have hmem' := List.of_mem_zip hmem
      exact deserializeBundle_decodes (hkeys _ hmem'.1) (hids _ (by simp [hmem'.2]))
    obtain ⟨pad, hpage⟩ := internalPage_eq cfg header ⟨seps, first :: rest⟩
    have hread₁ := hfirst.front _ ((seps.zip rest).flatMap serializeBundle ++ pad)
      (serializeNodeHeader_length
        { header with
          type := .kInternal
          keyCount := seps.length
          nextLeafPageId := invalidPageId })
    have hread₂ := hbundles.front
      (serializeNodeHeader
        { header with
          type := .kInternal
          keyCount := seps.length
          nextLeafPageId := invalidPageId } ++ writeUint64 first) pad
      (by rw [List.length_append, serializeNodeHeader_length])
    simp only [List.headD_cons, List.tail_cons] at hpage
    rw [List.append_assoc, ← hpage, hlen] at hread₂
    rw [← hpage] at hread₁
    unfold parseInternalPage
    rw [hheader]
    simp only [bind, Except.bind, ne_eq, not_true_eq_false, if_false, hread₁, hread₂]
    simp [pure, Except.pure, List.map_fst_zip (Nat.le_of_eq hchildren.symm),
      List.map_snd_zip (Nat.le_of_eq hchildren)]

theorem parseNode_leafPage (hok : HeaderOk header) (h : EntriesOk cfg entries) :
    parseNode cfg (fillPage cfg (leafBytes header entries)) =
      .ok (.leaf { header with type := .kLeaf, keyCount := entries.length } entries) := by
  unfold parseNode
  rw [deserializeNodeHeader_leafPage cfg hok h.count_lt, parseLeafPage_build hok h]
  rfl

theorem parseNode_internalPage (hok : HeaderOk header) (h : BranchOk cfg node) :
    parseNode cfg (fillPage cfg (internalBytes header node)) =
      .ok (.internal
        { header with
          type := .kInternal
          keyCount := node.separatorKeys.length
          nextLeafPageId := invalidPageId } node) := by
  unfold parseNode
  rw [deserializeNodeHeader_internalPage cfg hok h.count_lt, parseInternalPage_build hok h]
  rfl

section RoundTrip

/-- The configuration with the key limit that the page size itself imposes. -/
def Config.pageLimited (cfg : Config) : Config := { cfg with maxKeyPayloadBytes := cfg.pageSize }

variable {keys : List Value} {room : ℕ}

theorem length_lt_of_bundles (h : (keys.map bundleSize).sum ≤ room) (hroom : room < 2 ^ 32) :
    keys.length < 2 ^ 32 := by
  have hle := List.length_le_sum_of_one_le (keys.map bundleSize) (by simp [bundleSize]; omega)
  rw [List.length_map] at hle
  omega

/-- A key that a page has room for is one that the page codec returns unchanged. -/
theorem keyOk_of_bundles (h : (keys.map bundleSize).sum ≤ room) (hroom : room ≤ cfg.pageSize)
    (hpage : cfg.pageSize < 2 ^ 32) {key : Value} (hkey : key ∈ keys)
    (htype : key.type = cfg.keyType) : KeyOk cfg.pageLimited key := by
  have hle : bundleSize key ≤ (keys.map bundleSize).sum :=
    List.le_sum_of_mem (List.mem_map_of_mem hkey)
  rw [bundleSize] at hle
  refine ⟨htype, by omega, ?_⟩
  change _ ≤ cfg.pageSize
  omega

theorem EntriesOk.of_fits (h : (leafBytes header entries).length ≤ cfg.pageSize)
    (hpage : cfg.pageSize < 2 ^ 32) (htype : ∀ entry ∈ entries, entry.key.type = cfg.keyType)
    (hrid : ∀ entry ∈ entries, entry.rid < 2 ^ 64) : EntriesOk cfg.pageLimited entries := by
  rw [leafBytes_length] at h
  have hsum : ((entries.map LeafEntry.key).map bundleSize).sum ≤ cfg.pageSize := by
    rw [List.map_map]
    exact (Nat.le_add_left _ _).trans h
  refine ⟨?_, fun entry hmem => ?_, hrid, h⟩
  · simpa using length_lt_of_bundles hsum hpage
  · exact keyOk_of_bundles hsum le_rfl hpage (List.mem_map_of_mem hmem) (htype entry hmem)

theorem BranchOk.of_fits (hchildren : node.childPageIds.length = node.separatorKeys.length + 1)
    (h : (internalBytes header node).length ≤ cfg.pageSize) (hpage : cfg.pageSize < 2 ^ 32)
    (htype : ∀ key ∈ node.separatorKeys, key.type = cfg.keyType)
    (hids : ∀ id ∈ node.childPageIds, id < 2 ^ 64) : BranchOk cfg.pageLimited node := by
  rw [internalBytes_length hchildren] at h
  have hsum := (Nat.le_add_left _ _).trans h
  exact ⟨length_lt_of_bundles hsum hpage, hchildren,
    fun key hmem => keyOk_of_bundles hsum le_rfl hpage hmem (htype key hmem), hids, h⟩

/-- Whatever `BuildLeafPage` and `BuildInternalPage` accept, the parsers return: the
keys of the tree's type in order, the row or child ids, the parent, the root flag and
the next leaf. The ids are `std::uint64_t` values. -/
theorem nodePages_round_trip (cfg : Config) (hpage : cfg.pageSize < 2 ^ 32) (header : NodeHeader)
    (hheader : HeaderOk header) :
    (∀ (entries : List LeafEntry) (page : ByteString),
      (∀ entry ∈ entries, entry.key.type = cfg.keyType) →
      (∀ entry ∈ entries, entry.rid < 2 ^ 64) → buildLeafPage cfg header entries = .ok page →
      parseLeafPage cfg page =
        .ok ({ header with type := .kLeaf, keyCount := entries.length }, entries)) ∧
    ∀ (node : InternalNodeData) (page : ByteString),
      (∀ key ∈ node.separatorKeys, key.type = cfg.keyType) →
      (∀ id ∈ node.childPageIds, id < 2 ^ 64) → buildInternalPage cfg header node = .ok page →
      parseInternalPage cfg page =
        .ok ({ header with
               type := .kInternal
               keyCount := node.separatorKeys.length
               nextLeafPageId := invalidPageId }, node) := by
  constructor
  · intro entries page htype hrid hbuild
    unfold buildLeafPage at hbuild
    split_ifs at hbuild with hfits
    cases hbuild
    -- The codec does not read the key limit, so that of the page will do.
    have hparse := parseLeafPage_build hheader (.of_fits (not_lt.mp hfits) hpage htype hrid)
    exact hparse
  · intro node page htype hids hbuild
    unfold buildInternalPage at hbuild
    split_ifs at hbuild with hchildren hfits
    cases hbuild
    have hparse := parseInternalPage_build hheader
      (.of_fits (not_not.mp hchildren) (not_lt.mp hfits) hpage htype hids)
    exact hparse

/-- A page of string keys with the empty string among them. -/
theorem emptyKey_round_trip :
    let cfg : Config :=
      { keyType := .kString, pageSize := 96, minDegree := 2, maxKeyPayloadBytes := 8 }
    let header : NodeHeader :=
      { type := .kLeaf, keyCount := 0, parentPageId := 3, nextLeafPageId := 5, isRoot := true }
    let entries : List LeafEntry := [⟨.string [], 1⟩, ⟨.string [97], 2⟩]
    let node : InternalNodeData := ⟨[.string []], [4, 6]⟩
    (∃ page, buildLeafPage cfg header entries = .ok page ∧
      parseLeafPage cfg page = .ok ({ header with keyCount := 2 }, entries)) ∧
    ∃ page, buildInternalPage cfg header node = .ok page ∧
      parseInternalPage cfg page = .ok ({ header with
        type := .kInternal, keyCount := 1, nextLeafPageId := invalidPageId }, node) := by
  intro cfg header entries node
  have h := nodePages_round_trip cfg (by decide) header ⟨by decide, by decide⟩
  exact ⟨⟨_, rfl, h.1 entries _ (by decide) (by decide) rfl⟩,
    ⟨_, rfl, h.2 node _ (by decide) (by decide) rfl⟩⟩

end RoundTrip

end CourseDb.BStarTree

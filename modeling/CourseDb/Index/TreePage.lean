import CourseDb.Common.Serialization

/-! # Pages of the B*-tree

A tree page is a node header followed by leaf entries, or by child pointers
with separator keys between them. Page 0 holds the tree's metadata. Key
lengths and key counts are written as 32-bit integers. Encoded strings and
Booleans compare as the values do; an integer is written with its lowest byte
first, so two of them compare as their bytes do only if the lowest byte in which
they differ decides as their values do.
-/

namespace CourseDb

open Codec

namespace KeyEncoder

def encode : Value → ByteString
  | .null => []
  | .int v => writeInt64 v
  | .string s => s
  | .bool b => writeBool b

def decode (bytes : ByteString) : ValueType → Except Status Value
  | .kNull =>
    if !bytes.isEmpty then
      .error ⟨.kInvalidArgument, "NULL key payload must be empty"⟩
    else
      .ok .null
  | .kInt =>
    if bytes.length ≠ 8 then
      .error ⟨.kInvalidArgument, "INT key payload must be 8 bytes"⟩
    else
      (readInt64 bytes 0).map fun r => .int r.1
  | .kString => .ok (.string bytes)
  | .kBool =>
    match bytes with
    | [b] =>
      if b ≠ 0 ∧ b ≠ 1 then
        .error ⟨.kInvalidArgument, "BOOL key payload must be 0 or 1"⟩
      else
        .ok (.bool (b = 1))
    | _ => .error ⟨.kInvalidArgument, "BOOL key payload must be 1 byte"⟩

theorem decode_encode (v : Value) : decode (encode v) v.type = .ok v := by
  cases v with
  | null => rfl
  | int n =>
    have hread := (readInt64_decodes n).whole
    simp [decode, encode, Value.type, hread, Except.map]
  | string s => rfl
  | bool b => cases b <;> rfl

end KeyEncoder

namespace BStarTree

inductive NodeType where
  | kInternal
  | kLeaf
deriving DecidableEq

def NodeType.code : NodeType → ℕ
  | kInternal => 1
  | kLeaf => 2

structure TreeMetadata where
  rootPageId : ℕ
  firstLeafPageId : ℕ
  minDegree : ℕ
  maxKeyPayloadBytes : ℕ
  treeHeight : ℕ

structure NodeHeader where
  type : NodeType
  keyCount : ℕ
  parentPageId : ℕ
  nextLeafPageId : ℕ
  isRoot : Bool

structure LeafEntry where
  key : Value
  rid : ℕ
deriving DecidableEq

structure InternalNodeData where
  separatorKeys : List Value
  childPageIds : List ℕ

/-- What the constructor of the tree fixes. -/
structure Config where
  keyType : ValueType
  pageSize : ℕ
  minDegree : ℕ
  /-- `max_key_payload_bytes_`: the largest encoded key. -/
  maxKeyPayloadBytes : ℕ

/-- `kInvalidPageIdValue`. -/
def invalidPageId : ℕ := 2 ^ 64 - 1

/-- "CDBB*+MT" -/
def treeMetadataMagic : ByteString := [67, 68, 66, 66, 42, 43, 77, 84]

/-- "CDBB*+ND" -/
def treeNodeMagic : ByteString := [67, 68, 66, 66, 42, 43, 78, 68]

def treeVersion : ℕ := 3

def metadataHeaderSize : ℕ := 56

def nodeHeaderSize : ℕ := 33

def serializeMetadata (cfg : Config) (m : TreeMetadata) : ByteString :=
  treeMetadataMagic ++ (writeUint32 treeVersion ++ (writeUint32 cfg.keyType.code ++
    (writeUint64 m.rootPageId ++ (writeUint64 m.firstLeafPageId ++ (writeUint64 m.minDegree ++
      (writeUint64 m.maxKeyPayloadBytes ++ writeUint64 m.treeHeight))))))

def readMetadata (cfg : Config) : Reader Status TreeMetadata := do
  let version ← readUint32
  let rawKeyType ← readUint32
  if version ≠ treeVersion then
    Reader.fail ⟨.kInvalidArgument, "Unsupported BStarTree version"⟩
  else if rawKeyType ≠ cfg.keyType.code then
    Reader.fail ⟨.kInvalidArgument, "Index key type does not match tree metadata"⟩
  else
    let rootPageId ← readUint64
    let firstLeafPageId ← readUint64
    let minDegree ← readUint64
    if minDegree ≠ cfg.minDegree then
      Reader.fail ⟨.kInvalidArgument, "Index min_degree does not match tree metadata"⟩
    else
      let maxKeyPayloadBytes ← readUint64
      if maxKeyPayloadBytes ≠ cfg.maxKeyPayloadBytes then
        Reader.fail ⟨.kInvalidArgument, "Index key payload policy does not match tree metadata"⟩
      else
        let treeHeight ← readUint64
        return { rootPageId, firstLeafPageId, minDegree, maxKeyPayloadBytes, treeHeight }

def deserializeMetadata (cfg : Config) (bytes : ByteString) : Except Status TreeMetadata :=
  if bytes.length < metadataHeaderSize then
    .error ⟨.kInvalidArgument, "Metadata page is too small"⟩
  else if bytes.take treeMetadataMagic.length ≠ treeMetadataMagic then
    .error ⟨.kInvalidArgument, "Invalid BStarTree metadata magic"⟩
  else
    (readMetadata cfg bytes treeMetadataMagic.length).map Prod.fst

def serializeNodeHeader (h : NodeHeader) : ByteString :=
  treeNodeMagic ++ (writeUint32 h.type.code ++ (writeUint32 h.keyCount ++
    (writeUint64 h.parentPageId ++ (writeUint64 h.nextLeafPageId ++ writeBool h.isRoot))))

def readNodeHeader : Reader Status NodeHeader := do
  let rawType ← readUint32
  let keyCount ← readUint32
  let parentPageId ← readUint64
  let nextLeafPageId ← readUint64
  let isRoot ← readUint8
  if rawType ≠ NodeType.kLeaf.code ∧ rawType ≠ NodeType.kInternal.code then
    Reader.fail ⟨.kInvalidArgument, "Invalid BStarTree node type"⟩
  else
    let type := if rawType = NodeType.kLeaf.code then NodeType.kLeaf else NodeType.kInternal
    return { type, keyCount, parentPageId, nextLeafPageId, isRoot := isRoot ≠ 0 }

def deserializeNodeHeader (bytes : ByteString) : Except Status NodeHeader :=
  if bytes.length < nodeHeaderSize then
    .error ⟨.kInvalidArgument, "Node page is too small"⟩
  else if bytes.take treeNodeMagic.length ≠ treeNodeMagic then
    .error ⟨.kInvalidArgument, "Invalid BStarTree node magic"⟩
  else
    (readNodeHeader bytes treeNodeMagic.length).map Prod.fst

def serializeSeparatorKey (key : Value) : ByteString :=
  writeUint32 (KeyEncoder.encode key).length ++ KeyEncoder.encode key

def deserializeSeparatorKey (cfg : Config) : Reader Status Value := do
  let keySize ← readUint32
  ensureReadable keySize
  let keyBytes ← Reader.take keySize
  match KeyEncoder.decode keyBytes cfg.keyType with
  | .error e => Reader.fail e
  | .ok key => return key

def serializeLeafEntry (entry : LeafEntry) : ByteString :=
  writeUint32 (KeyEncoder.encode entry.key).length ++
    (KeyEncoder.encode entry.key ++ writeUint64 entry.rid)

def deserializeLeafEntry (cfg : Config) : Reader Status LeafEntry := do
  let key ← deserializeSeparatorKey cfg
  let rid ← readUint64
  return { key, rid }

def parseLeafPage (cfg : Config) (page : ByteString) :
    Except Status (NodeHeader × List LeafEntry) := do
  let header ← deserializeNodeHeader page
  if header.type ≠ .kLeaf then
    .error ⟨.kInvalidArgument, "Expected leaf page"⟩
  else
    let (entries, _) ←
      Reader.times (deserializeLeafEntry cfg) header.keyCount page nodeHeaderSize
    return (header, entries)

/-- A zeroed page with `bytes` copied to its front. -/
def fillPage (cfg : Config) (bytes : ByteString) : ByteString :=
  bytes ++ List.replicate (cfg.pageSize - bytes.length) 0

def leafBytes (header : NodeHeader) (entries : List LeafEntry) : ByteString :=
  serializeNodeHeader { header with type := .kLeaf, keyCount := entries.length } ++
    entries.flatMap serializeLeafEntry

def buildLeafPage (cfg : Config) (header : NodeHeader) (entries : List LeafEntry) :
    Except Status ByteString :=
  if (leafBytes header entries).length > cfg.pageSize then
    .error ⟨.kInvalidArgument, "Leaf page does not fit into page size"⟩
  else
    .ok (fillPage cfg (leafBytes header entries))

/-- A separator key with the child to its right. -/
def deserializeBundle (cfg : Config) : Reader Status (Value × ℕ) := do
  let separator ← deserializeSeparatorKey cfg
  let child ← readUint64
  return (separator, child)

def parseInternalPage (cfg : Config) (page : ByteString) :
    Except Status (NodeHeader × InternalNodeData) := do
  let header ← deserializeNodeHeader page
  if header.type ≠ .kInternal then
    .error ⟨.kInvalidArgument, "Expected internal page"⟩
  else
    let (first, off) ← readUint64 page nodeHeaderSize
    let (bundles, _) ← Reader.times (deserializeBundle cfg) header.keyCount page off
    return (header,
      { separatorKeys := bundles.map Prod.fst, childPageIds := first :: bundles.map Prod.snd })

def serializeBundle (bundle : Value × ℕ) : ByteString :=
  serializeSeparatorKey bundle.1 ++ writeUint64 bundle.2

def internalBytes (header : NodeHeader) (node : InternalNodeData) : ByteString :=
  serializeNodeHeader
    { header with
      type := .kInternal
      keyCount := node.separatorKeys.length
      nextLeafPageId := invalidPageId } ++
    (writeUint64 (node.childPageIds.headD 0) ++
      (node.separatorKeys.zip node.childPageIds.tail).flatMap serializeBundle)

def buildInternalPage (cfg : Config) (header : NodeHeader) (node : InternalNodeData) :
    Except Status ByteString :=
  if node.childPageIds.length ≠ node.separatorKeys.length + 1 then
    .error ⟨.kInvalidArgument, "Internal node must contain exactly key_count + 1 child pointers"⟩
  else if (internalBytes header node).length > cfg.pageSize then
    .error ⟨.kInvalidArgument, "Internal page does not fit into page size"⟩
  else
    .ok (fillPage cfg (internalBytes header node))

inductive Node where
  | leaf (header : NodeHeader) (entries : List LeafEntry)
  | internal (header : NodeHeader) (node : InternalNodeData)

/-- Read the node header and parse the rest of the page by the type it gives. -/
def parseNode (cfg : Config) (page : ByteString) : Except Status Node := do
  let header ← deserializeNodeHeader page
  match header.type with
  | .kLeaf =>
    let (header, entries) ← parseLeafPage cfg page
    return .leaf header entries
  | .kInternal =>
    let (header, node) ← parseInternalPage cfg page
    return .internal header node

end BStarTree

end CourseDb

namespace CourseDb.KeyEncoder

open Codec

/-- The bytes compare as the keys do, and the first key is read back. -/
structure Ordered (a b : Value) : Prop where
  encode_lt_iff : encode a < encode b ↔ a.less b = true
  decode_encode : decode (encode a) a.type = .ok a

/-- `256 ^ k` is the largest power of 256 that divides the difference: the integers differ in
byte `k` and in no lower one. -/
def DifferFrom (k : ℕ) (x y : ℤ) : Prop := 256 ^ k ∣ y - x ∧ ¬ 256 ^ (k + 1) ∣ y - x

/-- The lowest byte in which two integers differ compares as they do. -/
def LowestDecides (x y : ℤ) : Prop :=
  ∀ k, DifferFrom k x y → (x % 256 ^ (k + 1) < y % 256 ^ (k + 1) ↔ x < y)

section Bytes

variable {x y d : ℤ} {j k w : ℕ}

theorem exists_highest_power (h : ¬ 256 ^ w ∣ d) : ∃ k < w, 256 ^ k ∣ d ∧ ¬ 256 ^ (k + 1) ∣ d := by
  induction w with
  | zero => exact absurd (one_dvd d) h
  | succ w ih =>
    by_cases hw : 256 ^ w ∣ d
    · exact ⟨w, Nat.lt_succ_self w, hw, h⟩
    · obtain ⟨k, hk, hdvd⟩ := ih hw
      exact ⟨k, Nat.lt_succ_of_lt hk, hdvd⟩

theorem DifferFrom.unique (hj : DifferFrom j x y) (hk : DifferFrom k x y) : j = k := by
  by_contra hne
  rcases Nat.lt_or_gt_of_ne hne with hlt | hlt
  · exact hj.2 ((pow_dvd_pow 256 hlt).trans hk.1)
  · exact hk.2 ((pow_dvd_pow 256 hlt).trans hj.1)

end Bytes

section Ints

variable {k : ℕ}

/-- The low bytes of the two's complement are those of the integer. -/
theorem toNat_mod (v : Int64) (hk : k ≤ 8) :
    ((v.toUInt64.toNat % 256 ^ k : ℕ) : ℤ) = v.toInt % 256 ^ k := by
  have hbits : v.toInt % 2 ^ 64 = (v.toUInt64.toNat : ℤ) := by
    change v.toBitVec.toInt % 2 ^ 64 = (v.toBitVec.toNat : ℤ)
    rw [BitVec.toInt_eq_toNat_bmod]
    exact (Int.bmod_emod).trans (Int.emod_eq_of_lt (by omega) (by omega))
  have hdvd : (256 : ℤ) ^ k ∣ 2 ^ 64 := by
    have hpow : (256 : ℤ) ^ k ∣ 256 ^ 8 := pow_dvd_pow 256 hk
    exact hpow
  push_cast
  rw [← hbits, Int.emod_emod_of_dvd _ hdvd]

theorem encode_int_lt_iff (x y : Int64) :
    encode (.int x) < encode (.int y) ↔
      ∃ k < 8, x.toInt % 256 ^ k = y.toInt % 256 ^ k ∧
        x.toInt % 256 ^ (k + 1) < y.toInt % 256 ^ (k + 1) := by
  refine (leBytes_lt_iff 8 _ _).trans (exists_congr fun k => and_congr_right fun hk => ?_)
  rw [← toNat_mod x hk.le, ← toNat_mod y hk.le, ← toNat_mod x hk, ← toNat_mod y hk]
  norm_cast

/-- The lowest byte in which the integers differ decides between their encodings. -/
theorem encode_int_lt_iff_of_differFrom {x y : Int64} (hk : k < 8)
    (h : DifferFrom k x.toInt y.toInt) :
    encode (.int x) < encode (.int y) ↔
      x.toInt % 256 ^ (k + 1) < y.toInt % 256 ^ (k + 1) := by
  rw [encode_int_lt_iff]
  constructor
  · rintro ⟨j, -, heq, hlt⟩
    have hj : DifferFrom j x.toInt y.toInt :=
      ⟨Int.modEq_iff_dvd.mp heq, fun hdvd => hlt.ne (Int.modEq_iff_dvd.mpr hdvd)⟩
    rwa [hj.unique h] at hlt
  · intro hlt
    exact ⟨k, hk, Int.modEq_iff_dvd.mpr h.1, hlt⟩

theorem exists_differFrom {x y : Int64} (hne : x ≠ y) :
    ∃ k < 8, DifferFrom k x.toInt y.toInt := by
  apply exists_highest_power
  intro hdvd
  have hzero : y.toInt - x.toInt = 0 := by
    refine Int.eq_zero_of_abs_lt_dvd hdvd ?_
    have hx := x.toInt_lt
    have hx' := x.le_toInt
    have hy := y.toInt_lt
    have hy' := y.le_toInt
    rw [abs_lt]
    constructor <;> omega
  exact hne (Int64.toInt_inj.mp (by omega))

theorem int_less_iff (x y : Int64) : (Value.int x).less (.int y) = true ↔ x.toInt < y.toInt := by
  simp [Value.less, Int64.lt_iff_toInt_lt]

theorem ordered_int_iff (x y : Int64) :
    Ordered (.int x) (.int y) ↔ LowestDecides x.toInt y.toInt := by
  have hread := decode_encode (.int x)
  by_cases hne : x = y
  · subst hne
    have hless : (Value.int x).less (.int x) = false := by simp [Value.less]
    refine iff_of_true ⟨iff_of_false (lt_irrefl _) (by simp [hless]), hread⟩ fun k hk => ?_
    exact iff_of_false (lt_irrefl _) (lt_irrefl _)
  obtain ⟨k, hk, hdiffer⟩ := exists_differFrom hne
  have hbytes := encode_int_lt_iff_of_differFrom hk hdiffer
  constructor
  · intro h j hj
    rw [hj.unique hdiffer, ← hbytes, h.encode_lt_iff, int_less_iff]
  · intro h
    refine ⟨?_, hread⟩
    rw [hbytes, h k hdiffer, int_less_iff]

end Ints

/-- The encoding keeps the order of all strings and Booleans, and of those integers of which
the lowest differing byte decides. -/
theorem ordered_iff (a b : Value) (htype : a.type = b.type) :
    Ordered a b ↔ ∀ x y, a = .int x → b = .int y → LowestDecides x.toInt y.toInt := by
  have hread := decode_encode a
  cases a <;> cases b <;> simp only [Value.type, reduceCtorEq] at htype
  case null.null =>
    exact iff_of_true ⟨iff_of_false (lt_irrefl _) (by simp [Value.less]), hread⟩ (by simp)
  case int.int x y =>
    rw [ordered_int_iff]
    constructor
    · rintro h _ _ ⟨⟩ ⟨⟩
      exact h
    · intro h
      exact h x y rfl rfl
  case string.string s t =>
    refine iff_of_true ⟨?_, hread⟩ (by simp)
    simp [encode, Value.less]
  case bool.bool b c =>
    refine iff_of_true ⟨?_, hread⟩ (by simp)
    cases b <;> cases c <;> decide

theorem ordered_small_ints : Ordered (.int 1) (.int 2) := by
  refine (ordered_iff (.int 1) (.int 2) rfl).mpr ?_
  rintro _ _ ⟨⟩ ⟨⟩ k hk
  have hlow : DifferFrom 0 (1 : Int64).toInt (2 : Int64).toInt := by
    unfold DifferFrom
    decide
  rw [hk.unique hlow]
  decide

/-- The low byte comes first, and the sign is a high bit like any other. -/
theorem encode_reorders_ints :
    (encode (.int 256) < encode (.int 1) ∧ (Value.int 1).less (.int 256) = true) ∧
      (encode (.int 1) < encode (.int (-1)) ∧ (Value.int (-1)).less (.int 1) = true) := by
  decide

end CourseDb.KeyEncoder

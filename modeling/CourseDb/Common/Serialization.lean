import CourseDb.Common.Value

/-! # Binary serialization of values, tuples and rows

The writers append to a buffer and the readers return the offset after what
they read, as `binary_io`, `value_serialization` and `row_serialization` do.
Lengths and counts are written in a fixed width and are truncated to it. Every
record that respects those widths is read back as it was written.
-/

namespace CourseDb

open Codec

variable {v : Value}

/-- The status of a read past the end of the buffer. -/
def unexpectedEnd : Status :=
  ⟨.kInvalidArgument, "Corrupted binary payload: unexpected end of buffer"⟩

def writeUint32 (n : ℕ) : ByteString := leBytes 4 n

def writeUint64 (n : ℕ) : ByteString := leBytes 8 n

def writeInt64 (v : Int64) : ByteString := leBytes 8 v.toUInt64.toNat

def writeBool (b : Bool) : ByteString := leBytes 1 (if b then 1 else 0)

def writeString (s : ByteString) : ByteString := writeUint32 s.length ++ s

def ensureReadable (need : ℕ) : Reader Status Unit := Reader.ensure unexpectedEnd need

def readUint8 : Reader Status ℕ := Reader.uint unexpectedEnd 1

def readUint32 : Reader Status ℕ := Reader.uint unexpectedEnd 4

def readUint64 : Reader Status ℕ := Reader.uint unexpectedEnd 8

def readInt64 : Reader Status Int64 := do
  let raw ← readUint64
  return (UInt64.ofNat raw).toInt64

def readBool : Reader Status Bool := do
  let raw ← readUint8
  if raw > 1 then
    Reader.fail ⟨.kInvalidArgument, "Corrupted binary payload: invalid bool value"⟩
  else
    return raw = 1

def readString : Reader Status ByteString := do
  let size ← readUint32
  ensureReadable size
  Reader.take size

theorem writeUint32_length (n : ℕ) : (writeUint32 n).length = 4 := leBytes_length 4 n

theorem writeUint64_length (n : ℕ) : (writeUint64 n).length = 8 := leBytes_length 8 n

theorem writeInt64_length (v : Int64) : (writeInt64 v).length = 8 := leBytes_length 8 _

theorem writeBool_length (b : Bool) : (writeBool b).length = 1 := leBytes_length 1 _

theorem writeString_length (s : ByteString) : (writeString s).length = 4 + s.length := by
  simp [writeString, writeUint32_length]

attribute [simp] writeUint32_length writeUint64_length writeInt64_length writeBool_length
  writeString_length

theorem readUint32_decodes {n : ℕ} (h : n < 2 ^ 32) : Decodes readUint32 (writeUint32 n) n :=
  Decodes.uint _ (by omega)

theorem readUint32_decodes_mod (n : ℕ) : Decodes readUint32 (writeUint32 n) (n % 2 ^ 32) :=
  Decodes.uint_mod _ 4 n

theorem readUint64_decodes {n : ℕ} (h : n < 2 ^ 64) : Decodes readUint64 (writeUint64 n) n :=
  Decodes.uint _ (by omega)

theorem readInt64_decodes (v : Int64) : Decodes readInt64 (writeInt64 v) v := by
  refine (Decodes.uint unexpectedEnd (w := 8) (n := v.toUInt64.toNat) ?_).map ?_
  · exact v.toUInt64.toNat_lt
  · simpa [Decodes] using Decodes.pure (ε := Status) v

theorem readBool_decodes (b : Bool) : Decodes readBool (writeBool b) b := by
  cases b
  · exact (Decodes.uint unexpectedEnd (w := 1) (n := 0) (by omega)).map (Decodes.pure _)
  · exact (Decodes.uint unexpectedEnd (w := 1) (n := 1) (by omega)).map (Decodes.pure _)

theorem readString_decodes {s : ByteString} (h : s.length < 2 ^ 32) :
    Decodes readString (writeString s) s :=
  (readUint32_decodes h).bind (Gives.ensure le_rfl (Decodes.take s))

def serializeValue (v : Value) : ByteString :=
  writeUint32 v.type.code ++
    match v with
    | .null => []
    | .int n => writeInt64 n
    | .string s => writeString s
    | .bool b => writeBool b

def deserializeValue : Reader Status Value := do
  let rawType ← readUint32
  match rawType with
  | 0 => return .null
  | 1 => do
    let v ← readInt64
    return .int v
  | 2 => do
    let v ← readString
    return .string v
  | 3 => do
    let v ← readBool
    return .bool v
  | _ => Reader.fail ⟨.kInvalidArgument, "Corrupted metadata: invalid value type"⟩

/-- The length field of the value has room for its text. -/
def Value.Short : Value → Prop
  | .string s => s.length < 2 ^ 32
  | _ => True

theorem Value.Short.deserializeValue_decodes (h : v.Short) :
    Decodes deserializeValue (serializeValue v) v := by
  have htype : Decodes readUint32 (writeUint32 v.type.code) v.type.code :=
    readUint32_decodes (by cases v <;> simp [Value.type, ValueType.code])
  refine htype.bind ?_
  cases v with
  | null => exact Decodes.pure _
  | int n => exact (readInt64_decodes n).map (Decodes.pure _)
  | string s => exact (readString_decodes h).map (Decodes.pure _)
  | bool b => exact (readBool_decodes b).map (Decodes.pure _)

theorem Value.short_of_length (h : (serializeValue v).length < 2 ^ 32) : v.Short := by
  cases v with
  | string s =>
    simp only [serializeValue, List.length_append, writeString_length] at h
    change s.length < 2 ^ 32
    omega
  | _ => trivial

theorem Value.Short.length_le (h : v.Short) : (serializeValue v).length ≤ 8 + 2 ^ 32 := by
  cases v with
  | string s =>
    have hs : s.length < 2 ^ 32 := h
    simp only [serializeValue, List.length_append, writeUint32_length, writeString_length]
    omega
  | _ => simp [serializeValue]

/-- `kMaxTupleValues`. -/
def maxTupleValues : ℕ := 2 ^ 20

def serializeTuple (t : Tuple) : ByteString :=
  writeUint64 t.length ++ t.flatMap serializeValue

def deserializeTuple : Reader Status Tuple := do
  let numValues ← readUint64
  if numValues > maxTupleValues then
    Reader.fail ⟨.kInvalidArgument, "Tuple value count is unreasonably large"⟩
  else
    Reader.times deserializeValue numValues

theorem serializeValue_length_le (t : Tuple) (hv : v ∈ t) :
    (serializeValue v).length ≤ (serializeTuple t).length := by
  have h := (List.sublist_flatten_of_mem (List.mem_map_of_mem (f := serializeValue) hv)).length_le
  simp only [serializeTuple, List.length_append, List.flatMap_def]
  omega

theorem deserializeTuple_decodes_short (t : Tuple) (hn : t.length ≤ maxTupleValues)
    (h : ∀ v ∈ t, v.Short) : Decodes deserializeTuple (serializeTuple t) t := by
  have hmax : maxTupleValues < 2 ^ 64 := by decide
  refine (readUint64_decodes (hn.trans_lt hmax)).bind ?_
  rw [if_neg (by omega)]
  exact Decodes.times fun v hv => (h v hv).deserializeValue_decodes

theorem deserializeTuple_decodes (t : Tuple) (hn : t.length ≤ maxTupleValues)
    (h : (serializeTuple t).length < 2 ^ 32) :
    Decodes deserializeTuple (serializeTuple t) t :=
  deserializeTuple_decodes_short t hn fun _ hv =>
    Value.short_of_length ((serializeValue_length_le t hv).trans_lt h)

theorem tuple_length_le_size (t : Tuple) : 4 * t.length ≤ (serializeTuple t).length := by
  have h : 4 * t.length ≤ (t.flatMap serializeValue).length := by
    induction t with
    | nil => simp
    | cons v t ih =>
      simp only [List.length_cons, List.flatMap_cons, List.length_append, serializeValue,
        writeUint32_length] at ih ⊢
      omega
  simp only [serializeTuple, List.length_append]
  omega

theorem deserializeTuple_rejects {t : Tuple} (hlarge : maxTupleValues < t.length)
    (ht : t.length < 2 ^ 64) :
    Rejects deserializeTuple (serializeTuple t)
      ⟨.kInvalidArgument, "Tuple value count is unreasonably large"⟩ := by
  refine (readUint64_decodes ht).bind ?_
  rw [if_pos hlarge]
  exact fun pre post => rfl

def serializeRow (row : Row) : ByteString :=
  writeUint64 row.rid ++ (writeBool row.deleted ++
    (writeUint64 (serializeTuple row.tuple).length ++ serializeTuple row.tuple))

def deserializeRow : Reader Status Row := do
  let rid ← readUint64
  let deleted ← readBool
  let tupleSize ← readUint64
  ensureReadable tupleSize
  let tuple ← Reader.sized
    ⟨.kInvalidArgument, "Deserialized tuple size does not match expected size"⟩ tupleSize
    deserializeTuple
  return { rid, tuple, deleted }

theorem serializeRow_length (row : Row) :
    (serializeRow row).length = 17 + (serializeTuple row.tuple).length := by
  simp only [serializeRow, List.length_append, writeUint64_length, writeBool_length]
  omega

theorem serializeTuple_length_le {t : Tuple} (h : ∀ v ∈ t, v.Short) :
    (serializeTuple t).length ≤ 8 + t.length * (8 + 2 ^ 32) := by
  have hle := List.sum_le_card_nsmul (t.map fun v => (serializeValue v).length) (8 + 2 ^ 32) (by
    intro n hn
    obtain ⟨v, hv, rfl⟩ := List.mem_map.mp hn
    exact (h v hv).length_le)
  rw [List.length_map, smul_eq_mul] at hle
  simp only [serializeTuple, List.length_append, writeUint64_length, List.length_flatMap]
  omega

/-- The size field of the tuple cannot overflow: there are too few values for that. -/
theorem deserializeRow_decodes_short (row : Row) (hrid : row.rid < 2 ^ 64)
    (hn : row.tuple.length ≤ maxTupleValues) (h : ∀ v ∈ row.tuple, v.Short) :
    Decodes deserializeRow (serializeRow row) row := by
  have hsize : (serializeTuple row.tuple).length < 2 ^ 64 := by
    have hle := serializeTuple_length_le h
    have hmul := Nat.mul_le_mul_right (8 + 2 ^ 32) hn
    rw [maxTupleValues] at hmul
    omega
  refine (readUint64_decodes hrid).bind ((readBool_decodes row.deleted).bind
    ((readUint64_decodes hsize).bind (Gives.ensure le_rfl ?_)))
  exact ((deserializeTuple_decodes_short row.tuple hn h).sized rfl).map (Decodes.pure _)

theorem deserializeRow_decodes (row : Row) (hrid : row.rid < 2 ^ 64)
    (hn : row.tuple.length ≤ maxTupleValues) (h : (serializeRow row).length < 2 ^ 32) :
    Decodes deserializeRow (serializeRow row) row := by
  refine deserializeRow_decodes_short row hrid hn fun v hv => Value.short_of_length ?_
  have hle := serializeValue_length_le row.tuple hv
  rw [serializeRow_length] at h
  omega

theorem deserializeRow_rejects {row : Row} (hrid : row.rid < 2 ^ 64)
    (hlarge : maxTupleValues < row.tuple.length)
    (hsize : (serializeTuple row.tuple).length < 2 ^ 64) :
    Rejects deserializeRow (serializeRow row)
      ⟨.kInvalidArgument, "Tuple value count is unreasonably large"⟩ := by
  have hcount := tuple_length_le_size row.tuple
  have htuple := deserializeTuple_rejects hlarge (by omega)
  exact (readUint64_decodes hrid).bind
    ((readBool_decodes _).bind ((readUint64_decodes hsize).bind
      (Gives.ensure le_rfl (Rejects.bind_left htuple.sized))))

/-- Whatever its values are read as, a row is read to its end. -/
theorem deserializeRow_takes {row : Row} (hrid : row.rid < 2 ^ 64)
    (hsize : (serializeTuple row.tuple).length < 2 ^ 64) :
    Takes deserializeRow (serializeRow row) :=
  (readUint64_decodes hrid).bind ((readBool_decodes _).bind ((readUint64_decodes hsize).bind
    (Gives.ensure le_rfl (Takes.sized (by simp [serializeTuple])))))

/-! What a reader accepts is the one encoding of the value it returns. -/

theorem readUint32_consumes : Consumes readUint32 fun n w => w = writeUint32 n ∧ n < 2 ^ 32 :=
  (Consumes.uint unexpectedEnd 4).mono fun _ _ h => ⟨h.1, by simpa using h.2⟩

theorem readUint64_consumes : Consumes readUint64 fun n w => w = writeUint64 n ∧ n < 2 ^ 64 :=
  (Consumes.uint unexpectedEnd 8).mono fun _ _ h => ⟨h.1, by simpa using h.2⟩

theorem readInt64_consumes : Consumes readInt64 fun v w => w = writeInt64 v := by
  refine readUint64_consumes.bind ?_
  rintro raw w ⟨rfl, hraw⟩
  refine Consumes.pure ?_
  have hback : (UInt64.ofNat raw).toInt64.toUInt64.toNat = raw := by
    rw [UInt64.toUInt64_toInt64, UInt64.toNat_ofNat_of_lt' hraw]
  rw [List.append_nil, writeInt64, hback, writeUint64]

theorem readBool_consumes : Consumes readBool fun b w => w = writeBool b := by
  refine (Consumes.uint unexpectedEnd 1).bind ?_
  rintro raw w ⟨rfl, _⟩
  split
  · exact Consumes.fail _
  · refine Consumes.pure ?_
    obtain rfl | rfl : raw = 0 ∨ raw = 1 := by omega
    · rfl
    · rfl

theorem readString_consumes :
    Consumes readString fun s w => w = writeString s ∧ s.length < 2 ^ 32 := by
  refine readUint32_consumes.bind ?_
  rintro size w ⟨rfl, hsize⟩
  refine (Consumes.checked unexpectedEnd size).mono ?_
  rintro s v ⟨rfl, rfl⟩
  exact ⟨rfl, hsize⟩

theorem deserializeValue_consumes :
    Consumes deserializeValue fun v w => w = serializeValue v ∧ v.Short := by
  refine readUint32_consumes.bind ?_
  rintro rawType w ⟨rfl, _⟩
  match rawType with
  | 0 => exact Consumes.pure ⟨rfl, trivial⟩
  | 1 =>
    refine readInt64_consumes.bind ?_
    rintro v w rfl
    exact Consumes.pure ⟨by simp [serializeValue, Value.type, ValueType.code], trivial⟩
  | 2 =>
    refine readString_consumes.bind ?_
    rintro v w ⟨rfl, hv⟩
    exact Consumes.pure ⟨by simp [serializeValue, Value.type, ValueType.code], hv⟩
  | 3 =>
    refine readBool_consumes.bind ?_
    rintro v w rfl
    exact Consumes.pure ⟨by simp [serializeValue, Value.type, ValueType.code], trivial⟩
  | _ + 4 => exact Consumes.fail _

theorem deserializeTuple_consumes :
    Consumes deserializeTuple fun t w =>
      w = serializeTuple t ∧ t.length ≤ maxTupleValues ∧ ∀ v ∈ t, v.Short := by
  refine readUint64_consumes.bind ?_
  rintro numValues w ⟨rfl, _⟩
  split
  · exact Consumes.fail _
  · refine (deserializeValue_consumes.times numValues).mono ?_
    rintro t v ⟨rfl, rfl, ht⟩
    exact ⟨rfl, by omega, ht⟩

end CourseDb

import CourseDb.Common.Serialization
import CourseDb.Server.QueryResult

/-! # The wire protocol

Requests and responses as byte strings. Strings carry a 32-bit length, and the
counts of a response are written with 32 bits. A message that is accepted is the
encoding of what is returned, so it has no second encoding. Which messages come
back from their encoding is then a question of widths.
-/

namespace CourseDb

open Codec

structure Request where
  requestId : ByteString := []
  database : ByteString := []
  sql : ByteString := []
  authToken : ByteString := []
deriving DecidableEq

structure Response where
  ok : Bool := true
  error : ByteString := []
  result : QueryResult := {}
deriving DecidableEq

namespace Protocol

variable {α : Type} {req : Request}

def serializeRequest (req : Request) : ByteString :=
  writeString req.requestId ++ (writeString req.database ++
    (writeString req.sql ++ writeString req.authToken))

def readRequest : Reader Status Request := do
  let requestId ← readString
  let database ← readString
  let sql ← readString
  let authToken ← readString
  return { requestId, database, sql, authToken }

/-- Bytes after the last field make the buffer unreadable. -/
def readWhole {α : Type} (r : Reader Status α) (data : ByteString) : Option α :=
  match r data 0 with
  | .error _ => none
  | .ok (a, offset) => if offset = data.length then some a else none

def deserializeRequest (data : ByteString) : Option Request := readWhole readRequest data

def serializeResponse (resp : Response) : ByteString :=
  writeBool resp.ok ++ (writeString resp.error ++ (writeBool resp.result.ok ++
    (writeString resp.result.error ++ (writeUint32 resp.result.affectedRows ++
      (writeUint32 resp.result.columns.length ++ (resp.result.columns.flatMap writeString ++
        (writeUint32 resp.result.rows.length ++ resp.result.rows.flatMap serializeTuple)))))))

def readResponse : Reader Status Response := do
  let ok ← readBool
  let error ← readString
  let resultOk ← readBool
  let resultError ← readString
  let affectedRows ← readUint32
  let columnCount ← readUint32
  let columns ← Reader.times readString columnCount
  let rowCount ← readUint32
  let rows ← Reader.times deserializeTuple rowCount
  return { ok, error, result := { ok := resultOk, error := resultError, columns, rows,
                                  affectedRows } }

def deserializeResponse (data : ByteString) : Option Response := readWhole readResponse data

theorem readWhole_of_decodes {r : Reader Status α} {enc : ByteString} {a : α} (h : Decodes r enc a) :
    readWhole r enc = some a := by
  simp [readWhole, h.whole]

theorem serializeRequest_length (req : Request) :
    (serializeRequest req).length = 16 + req.requestId.length + req.database.length +
      req.sql.length + req.authToken.length := by
  simp only [serializeRequest, List.length_append, writeString_length]
  omega

/-- A request below the width of the length fields is read back. -/
theorem deserializeRequest_serializeRequest (h : (serializeRequest req).length < 2 ^ 32) :
    deserializeRequest (serializeRequest req) = some req := by
  rw [serializeRequest_length] at h
  refine readWhole_of_decodes ?_
  exact (readString_decodes (by omega)).bind <| (readString_decodes (by omega)).bind <|
    (readString_decodes (by omega)).bind <| (readString_decodes (by omega)).map (Decodes.pure _)

theorem length_le_length_flatMap {f : α → ByteString} (hf : ∀ a, f a ≠ []) (l : List α) :
    l.length ≤ (l.flatMap f).length := by
  induction l with
  | nil => simp
  | cons a l ih =>
    have ha := List.length_pos_iff.mpr (hf a)
    simp only [List.flatMap_cons, List.length_append, List.length_cons]
    omega

theorem serializeResponse_length (resp : Response) :
    (serializeResponse resp).length = 22 + resp.error.length + resp.result.error.length +
      (resp.result.columns.flatMap writeString).length +
      (resp.result.rows.flatMap serializeTuple).length := by
  simp only [serializeResponse, List.length_append, writeString_length, writeBool_length,
    writeUint32_length]
  omega

/-- A buffer that no byte was received into. -/
def Zeros (data : ByteString) : Prop := ∀ b ∈ data, b = 0

theorem Zeros.of_append {a b : ByteString} (h : Zeros (a ++ b)) : Zeros a ∧ Zeros b :=
  List.forall_mem_append.mp h

theorem Zeros.leValue_eq {data : ByteString} (h : Zeros data) : leValue data = 0 := by
  induction data with
  | nil => rfl
  | cons b data ih =>
    obtain ⟨rfl, hrest⟩ := List.forall_mem_cons.mp h
    simp [leValue, ih hrest]

theorem Zeros.writeUint32_eq {n : ℕ} (h : Zeros (writeUint32 n)) (hn : n < 2 ^ 32) : n = 0 := by
  have hvalue := h.leValue_eq
  rwa [writeUint32, leValue_leBytes_of_lt hn] at hvalue

theorem Zeros.writeString_eq {s : ByteString} (h : Zeros (writeString s))
    (hs : s.length < 2 ^ 32) : s.length = 0 :=
  h.of_append.1.writeUint32_eq hs

/-- A request of zeros has only empty fields. -/
theorem Zeros.serializeRequest_length (h : Zeros (serializeRequest req))
    (hlen : (serializeRequest req).length < 2 ^ 32) : (serializeRequest req).length = 16 := by
  rw [Protocol.serializeRequest_length] at hlen ⊢
  obtain ⟨hid, h⟩ := h.of_append
  obtain ⟨hdatabase, h⟩ := h.of_append
  obtain ⟨hsql, htoken⟩ := h.of_append
  have := hid.writeString_eq (by omega)
  have := hdatabase.writeString_eq (by omega)
  have := hsql.writeString_eq (by omega)
  have := htoken.writeString_eq (by omega)
  omega

theorem Zeros.serializeResponse_length {resp : Response} (h : Zeros (serializeResponse resp))
    (hlen : (serializeResponse resp).length < 2 ^ 32) : (serializeResponse resp).length = 22 := by
  rw [Protocol.serializeResponse_length] at hlen ⊢
  have hcolumns := length_le_length_flatMap (f := writeString)
    (by simp [← List.length_pos_iff]) resp.result.columns
  have hrows := length_le_length_flatMap (f := serializeTuple)
    (by simp [← List.length_pos_iff, serializeTuple]) resp.result.rows
  obtain ⟨_, h⟩ := h.of_append
  obtain ⟨herror, h⟩ := h.of_append
  obtain ⟨_, h⟩ := h.of_append
  obtain ⟨hresultError, h⟩ := h.of_append
  obtain ⟨_, h⟩ := h.of_append
  obtain ⟨hcolumnCount, h⟩ := h.of_append
  obtain ⟨_, h⟩ := h.of_append
  obtain ⟨hrowCount, _⟩ := h.of_append
  have := herror.writeString_eq (by omega)
  have := hresultError.writeString_eq (by omega)
  have hnoColumns := List.length_eq_zero_iff.mp (hcolumnCount.writeUint32_eq (by omega))
  have hnoRows := List.length_eq_zero_iff.mp (hrowCount.writeUint32_eq (by omega))
  simp only [hnoColumns, hnoRows, List.flatMap_nil, List.length_nil]
  omega

end Protocol

open Codec

/-- The length fields of the request have room for its texts. -/
structure Request.Short (req : Request) : Prop where
  requestId : req.requestId.length < 2 ^ 32
  database : req.database.length < 2 ^ 32
  sql : req.sql.length < 2 ^ 32
  authToken : req.authToken.length < 2 ^ 32

/-- The length and count fields of the response have room for its texts, its
columns and its rows. -/
structure Response.Short (resp : Response) : Prop where
  error : resp.error.length < 2 ^ 32
  resultError : resp.result.error.length < 2 ^ 32
  columnNames : ∀ column ∈ resp.result.columns, column.length < 2 ^ 32
  values : ∀ row ∈ resp.result.rows, ∀ v ∈ row, v.Short
  columns : resp.result.columns.length < 2 ^ 32
  rows : resp.result.rows.length < 2 ^ 32

/-- The response is within the limits that only the reader knows of: 32 bits
for the affected rows and `kMaxTupleValues` for every row. -/
structure Response.WithinLimits (resp : Response) : Prop where
  affectedRows : resp.result.affectedRows < 2 ^ 32
  rowLengths : ∀ row ∈ resp.result.rows, row.length ≤ maxTupleValues

namespace Protocol

variable {α : Type} {r : Reader Status α} {enc : α → ByteString} {W : α → Prop}

theorem readWhole_of_consumes (hr : Consumes r fun a w => w = enc a ∧ W a) {data : ByteString}
    {a : α} (h : readWhole r data = some a) : enc a = data ∧ W a := by
  unfold readWhole at h
  split at h
  · cases h
  · next b offset hok =>
    split at h
    · next hend =>
      cases h
      obtain ⟨w, hdrop, _, _, rfl, hW⟩ := hr data 0 a offset hok (Nat.zero_le _)
      rw [hend, List.drop_length, List.append_nil, List.drop_zero] at hdrop
      exact ⟨hdrop.symm, hW⟩
    · cases h

theorem readRequest_consumes :
    Consumes readRequest fun req w => w = serializeRequest req ∧ req.Short := by
  refine readString_consumes.bind ?_
  rintro requestId _ ⟨rfl, hid⟩
  refine readString_consumes.bind ?_
  rintro database _ ⟨rfl, hdatabase⟩
  refine readString_consumes.bind ?_
  rintro sql _ ⟨rfl, hsql⟩
  refine readString_consumes.bind ?_
  rintro authToken _ ⟨rfl, htoken⟩
  exact Consumes.pure ⟨by simp [serializeRequest], hid, hdatabase, hsql, htoken⟩

theorem readResponse_consumes :
    Consumes readResponse fun resp w =>
      w = serializeResponse resp ∧ resp.Short ∧ resp.WithinLimits := by
  refine readBool_consumes.bind ?_
  rintro ok _ rfl
  refine readString_consumes.bind ?_
  rintro error _ ⟨rfl, herror⟩
  refine readBool_consumes.bind ?_
  rintro resultOk _ rfl
  refine readString_consumes.bind ?_
  rintro resultError _ ⟨rfl, hresultError⟩
  refine readUint32_consumes.bind ?_
  rintro affectedRows _ ⟨rfl, haffected⟩
  refine readUint32_consumes.bind ?_
  rintro columnCount _ ⟨rfl, hcolumnCount⟩
  refine (readString_consumes.times columnCount).bind ?_
  rintro columns _ ⟨rfl, rfl, hcolumns⟩
  refine readUint32_consumes.bind ?_
  rintro rowCount _ ⟨rfl, hrowCount⟩
  refine (deserializeTuple_consumes.times rowCount).bind ?_
  rintro rows _ ⟨rfl, rfl, hrows⟩
  refine Consumes.pure ⟨by simp [serializeResponse], ?_, ?_⟩
  · exact ⟨herror, hresultError, hcolumns, fun row hrow => (hrows row hrow).2, hcolumnCount,
      hrowCount⟩
  · exact ⟨haffected, fun row hrow => (hrows row hrow).1⟩

theorem readRequest_decodes {req : Request} (h : req.Short) :
    Decodes readRequest (serializeRequest req) req :=
  (readString_decodes h.requestId).bind <| (readString_decodes h.database).bind <|
    (readString_decodes h.sql).bind <| (readString_decodes h.authToken).map (Decodes.pure _)

theorem readResponse_decodes {resp : Response} (h : resp.Short) (hl : resp.WithinLimits) :
    Decodes readResponse (serializeResponse resp) resp := by
  refine (readBool_decodes resp.ok).bind ?_
  refine (readString_decodes h.error).bind ?_
  refine (readBool_decodes resp.result.ok).bind ?_
  refine (readString_decodes h.resultError).bind ?_
  refine (readUint32_decodes hl.affectedRows).bind ?_
  refine (readUint32_decodes h.columns).bind ?_
  refine (Decodes.times fun column hc => readString_decodes (h.columnNames column hc)).bind ?_
  refine (readUint32_decodes h.rows).bind ?_
  refine (Decodes.times fun row hr => ?_).map (Decodes.pure _)
  exact deserializeTuple_decodes_short row (hl.rowLengths row hr) (h.values row hr)

/-- `des` and `ser` agree on every accepted message, which therefore has one
encoding. -/
structure Canonical {α : Type} (ser : α → ByteString) (des : ByteString → Option α) : Prop where
  serialize_eq : ∀ data a, des data = some a → ser a = data
  encoding_unique : ∀ data data' a, des data = some a → des data' = some a → data' = data

theorem canonical_of_consumes (hr : Consumes r fun a w => w = enc a ∧ W a) :
    Canonical enc (readWhole r) where
  serialize_eq _ _ h := (readWhole_of_consumes hr h).1
  encoding_unique _ _ _ h h' :=
    (readWhole_of_consumes hr h').1.symm.trans (readWhole_of_consumes hr h).1

/-- The wire format has one encoding for every message it accepts, and every
request of representable length is accepted. -/
theorem wire_format_canonical :
    Canonical serializeRequest deserializeRequest ∧
      Canonical serializeResponse deserializeResponse ∧
      ∀ req : Request, req.Short → deserializeRequest (serializeRequest req) = some req :=
  ⟨canonical_of_consumes readRequest_consumes, canonical_of_consumes readResponse_consumes,
    fun _ h => readWhole_of_decodes (readRequest_decodes h)⟩

theorem wire_format_canonical_select :
    deserializeRequest (serializeRequest { sql := ascii "SELECT a FROM t" }) =
      some { sql := ascii "SELECT a FROM t" } :=
  wire_format_canonical.2.2 _ ⟨by decide, by decide, by decide, by decide⟩

/-- A response comes back from its encoding exactly when it is within the
limits that the writer does not check. -/
theorem deserializeResponse_serializeResponse_iff {resp : Response} (h : resp.Short) :
    deserializeResponse (serializeResponse resp) = some resp ↔ resp.WithinLimits :=
  ⟨fun hsome => (readWhole_of_consumes readResponse_consumes hsome).2.2,
    fun hl => readWhole_of_decodes (readResponse_decodes h hl)⟩

/-- The answer to a statement with a select list of `n` columns over one row of
NULLs. -/
def wideResponse (n : ℕ) : Response := { result := { rows := [List.replicate n .null] } }

theorem wideResponse_short (n : ℕ) : (wideResponse n).Short where
  error := by simp [wideResponse]
  resultError := by simp [wideResponse]
  columnNames := by simp [wideResponse]
  values := by
    intro row hrow v hv
    obtain rfl : row = List.replicate n .null := by simpa [wideResponse] using hrow
    obtain rfl := List.eq_of_mem_replicate hv
    trivial
  columns := by simp [wideResponse]
  rows := by simp [wideResponse]

theorem deserializeResponse_serializeResponse_iff_wide :
    deserializeResponse (serializeResponse (wideResponse maxTupleValues)) =
      some (wideResponse maxTupleValues) ↔ (wideResponse maxTupleValues).WithinLimits :=
  deserializeResponse_serializeResponse_iff (wideResponse_short maxTupleValues)

theorem wideResponse_rejected {n : ℕ} (hlarge : maxTupleValues < n) (hn : n < 2 ^ 64) :
    deserializeResponse (serializeResponse (wideResponse n)) = none := by
  have hrow := deserializeTuple_rejects (t := List.replicate n .null) (by simpa using hlarge)
    (by simpa using hn)
  have hresponse : Rejects readResponse (serializeResponse (wideResponse n))
      ⟨.kInvalidArgument, "Tuple value count is unreasonably large"⟩ := by
    refine (readBool_decodes _).bind ?_
    refine (readString_decodes (wideResponse_short n).error).bind ?_
    refine (readBool_decodes _).bind ?_
    refine (readString_decodes (wideResponse_short n).resultError).bind ?_
    refine (readUint32_decodes (n := 0) (by decide)).bind ?_
    refine (readUint32_decodes (n := 0) (by decide)).bind ?_
    refine (Decodes.pure []).bind ?_
    refine (readUint32_decodes (n := 1) (by decide)).bind ?_
    rw [show (wideResponse n).result.rows.flatMap serializeTuple =
      serializeTuple (List.replicate n .null) from List.append_nil _]
    exact Rejects.bind_left (Rejects.bind_left hrow)
  simp [deserializeResponse, readWhole, hresponse.whole]

/-- A row with one value too many makes the answer unreadable, and a count of
affected rows that needs a 33rd bit comes back as zero. -/
theorem response_round_trip_fails :
    deserializeResponse (serializeResponse (wideResponse (maxTupleValues + 1))) = none ∧
      deserializeResponse (serializeResponse { result := { affectedRows := 2 ^ 32 } }) =
        some { result := { affectedRows := 0 } } :=
  ⟨wideResponse_rejected (Nat.lt_succ_self _) (by decide), by decide⟩

end Protocol

end CourseDb

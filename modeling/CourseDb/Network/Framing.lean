import CourseDb.Network.Protocol

/-! # Framing over a byte stream

A message is sent as its 32-bit length followed by its bytes. `send` and `recv`
transfer any non-empty part of what remains, or fail; how much they transfer is
given by a list of choices, one for each call. The lengths handed to the loops
are signed 32-bit integers.
-/

namespace CourseDb.Framing

open Codec Protocol

/-- The value of `static_cast<int>`. -/
def toInt (n : ℕ) : ℤ :=
  let low : ℕ := n % 2 ^ 32
  if low < 2 ^ 31 then low else (low : ℤ) - 2 ^ 32

/-- What each call of `send` or `recv` does: it fails, or transfers at most one
byte more than the number given. -/
abbrev Chunks := List (Option ℕ)

/-- The loop of `SendAll`: the bytes it put on the stream and whether all of
them were sent. -/
def sendLoop : ByteString → Chunks → ByteString × Bool
  | [], _ => ([], true)
  | _ :: _, [] => ([], false)
  | _ :: _, none :: _ => ([], false)
  | b :: bs, some c :: cs =>
    let rest := sendLoop (bs.drop c) cs
    ((b :: bs.take c) ++ rest.1, rest.2)

/-- `SendAll(socket, data, len)`, where `len` is at most the size of the data. -/
def sendAll (data : ByteString) (len : ℤ) (chunks : Chunks) : ByteString × Bool :=
  sendLoop (data.take len.toNat) chunks

/-- The loop of `RecvAll` with the number of bytes still missing: the bytes it
received and the rest of the stream. -/
def recvLoop : ℕ → ByteString → Chunks → Option (ByteString × ByteString)
  | 0, wire, _ => some ([], wire)
  | _ + 1, _, [] => none
  | _ + 1, _, none :: _ => none
  | _ + 1, [], some _ :: _ => none
  | missing + 1, b :: wire, some c :: cs =>
    let part := b :: wire.take (min c missing)
    (recvLoop (missing + 1 - part.length) (wire.drop (min c missing)) cs).map fun r =>
      (part ++ r.1, r.2)

/-- `RecvAll(socket, data, len)`: what was received replaces the front of the
buffer. -/
def recvAll (buffer : ByteString) (len : ℤ) (wire : ByteString) (chunks : Chunks) :
    Option (ByteString × ByteString) :=
  (recvLoop len.toNat wire chunks).map fun r => (r.1 ++ buffer.drop r.1.length, r.2)

/-- How the transfer of one message is cut: its length, then its bytes. -/
structure Chunking where
  length : Chunks
  body : Chunks

inductive Part where
  | length
  | body
deriving DecidableEq

/-- Send a message: the bytes put on the stream and the transfer that failed. -/
def sendMessage (data : ByteString) (chunking : Chunking) : ByteString × Option Part :=
  let header := sendAll (writeUint32 data.length) 4 chunking.length
  if header.2 then
    let body := sendAll data (toInt data.length) chunking.body
    (header.1 ++ body.1, if body.2 then none else some .body)
  else (header.1, some .length)

/-- Receive a message into a buffer of zeros of the length announced. -/
def recvMessage (wire : ByteString) (chunking : Chunking) : Except Part ByteString :=
  match recvAll (List.replicate 4 0) 4 wire chunking.length with
  | none => .error .length
  | some (header, wire) =>
    let len := leValue header
    match recvAll (List.replicate len 0) (toInt len) wire chunking.body with
    | none => .error .body
    | some (data, _) => .ok data

structure Session where
  clientId : ByteString
  remoteAddr : ByteString
deriving DecidableEq

/-- The server's answer to a buffer it received. -/
def answer (handler : Session → Request → Response) (remoteAddr data : ByteString) : Response :=
  match deserializeRequest data with
  | none => { ok := false, error := ascii "failed to deserialize request" }
  | some req => handler { clientId := req.requestId, remoteAddr } req

/-- How the two messages of an exchange are cut on both sides. -/
structure Schedule where
  requestSent : Chunking
  requestReceived : Chunking
  responseSent : Chunking
  responseReceived : Chunking

/-- What happened in an exchange: the buffer the server deserialized, the
response it serialized, the buffer the client deserialized, and the status of
`TcpClient::Send`. -/
structure Exchange where
  requestBuffer : Option ByteString
  response : Option Response
  responseBuffer : Option ByteString
  status : Except Status Response

def networkError (message : String) : Status := ⟨.kNetworkError, message⟩

def sendFailure : Part → Status
  | .length => networkError "failed to send request length"
  | .body => networkError "failed to send request body"

def readFailure : Part → Status
  | .length => networkError "failed to read response length"
  | .body => networkError "failed to read response body"

/-- The bytes a server puts on the stream; it closes a connection whose request
it could not receive. -/
def answerBytes (chunking : Chunking) : Option Response → ByteString
  | none => []
  | some resp => (sendMessage (serializeResponse resp) chunking).1

/-- The rest of `TcpClient::Send` once it has sent its request: the buffer it
deserializes and the status it returns. -/
def clientOutcome (failed : Option Part) (wire : ByteString) (chunking : Chunking) :
    Option ByteString × Except Status Response :=
  match failed with
  | some part => (none, .error (sendFailure part))
  | none =>
    match recvMessage wire chunking with
    | .error part => (none, .error (readFailure part))
    | .ok data =>
      (some data, match deserializeResponse data with
        | none => .error (networkError "failed to deserialize response")
        | some resp => .ok resp)

/-- `TcpClient::Send` on a connection to a server with the given handler. -/
def exchange (handler : Session → Request → Response) (remoteAddr : ByteString) (req : Request)
    (schedule : Schedule) : Exchange :=
  let sent := sendMessage (serializeRequest req) schedule.requestSent
  let requestBuffer := (recvMessage sent.1 schedule.requestReceived).toOption
  let response := requestBuffer.map (answer handler remoteAddr)
  let wire := answerBytes schedule.responseSent response
  let outcome := clientOutcome sent.2 wire schedule.responseReceived
  { requestBuffer, response, responseBuffer := outcome.1, status := outcome.2 }

/-- Both sides were handed exactly what their peer serialized, or the exchange
failed before they were handed anything. -/
structure Exchange.Exact (x : Exchange) (req : Request) : Prop where
  request : x.requestBuffer = some (serializeRequest req) ∨
    x.requestBuffer = none ∧ ∃ e, x.status = .error e
  response : (∃ resp, x.response = some resp ∧ x.responseBuffer = some (serializeResponse resp)) ∨
    x.responseBuffer = none ∧ ∃ e, x.status = .error e

variable {data wire buffer : ByteString} {chunks : Chunks} {n : ℕ}

section Transfers

variable {len : ℤ}

theorem sendLoop_isPrefix (data : ByteString) (chunks : Chunks) :
    (sendLoop data chunks).1 <+: data := by
  fun_induction sendLoop data chunks with
  | case1 => exact List.prefix_rfl
  | case2 => exact List.nil_prefix
  | case3 => exact List.nil_prefix
  | case4 b bs c cs rest ih =>
    obtain ⟨tail, htail⟩ := ih
    refine ⟨tail, ?_⟩
    rw [List.append_assoc, htail, List.cons_append, List.take_append_drop]

theorem sendLoop_complete (h : (sendLoop data chunks).2 = true) :
    (sendLoop data chunks).1 = data := by
  fun_induction sendLoop data chunks with
  | case1 => rfl
  | case2 => cases h
  | case3 => cases h
  | case4 b bs c cs rest ih =>
    rw [ih h, List.cons_append, List.take_append_drop]

theorem sendLoop_whole (data : ByteString) :
    sendLoop data [some data.length] = (data, true) := by
  cases data with
  | nil => rfl
  | cons b bs =>
    have htake : bs.take (bs.length + 1) = bs := List.take_of_length_le (by omega)
    have hdrop : bs.drop (bs.length + 1) = [] := List.drop_of_length_le (by omega)
    simp [sendLoop, htake, hdrop]

/-- A transfer that returns has read exactly the bytes asked for. -/
theorem recvLoop_spec {got rest : ByteString} (h : recvLoop n wire chunks = some (got, rest)) :
    got ++ rest = wire ∧ got.length = n := by
  fun_induction recvLoop n wire chunks generalizing got rest with
  | case1 => simp_all
  | case2 => cases h
  | case3 => cases h
  | case4 => cases h
  | case5 missing b wire c cs =>
    rename_i part ih
    obtain ⟨⟨got', rest'⟩, hrest, heq⟩ := Option.map_eq_some_iff.mp h
    obtain ⟨hwire, hlen⟩ := ih hrest
    obtain ⟨rfl, rfl⟩ := Prod.mk.inj heq
    have hpart : part.length ≤ missing + 1 := by
      simp only [part, List.length_cons, List.length_take]
      omega
    refine ⟨?_, by simp only [List.length_append]; omega⟩
    rw [List.append_assoc, hwire, List.cons_append, List.take_append_drop]

theorem recvLoop_whole (got rest : ByteString) :
    recvLoop got.length (got ++ rest) [some got.length] = some (got, rest) := by
  cases got with
  | nil => simp [recvLoop]
  | cons b bs => simp [recvLoop]

theorem recvAll_spec {out rest : ByteString}
    (h : recvAll buffer len wire chunks = some (out, rest)) :
    ∃ got, got ++ rest = wire ∧ got.length = len.toNat ∧ out = got ++ buffer.drop len.toNat := by
  obtain ⟨⟨got, rest'⟩, hloop, heq⟩ := Option.map_eq_some_iff.mp h
  obtain ⟨hwire, hlen⟩ := recvLoop_spec hloop
  obtain ⟨rfl, rfl⟩ := Prod.mk.inj heq
  exact ⟨got, hwire, hlen, by rw [hlen]⟩

theorem recvAll_whole (buffer rest : ByteString) {got : ByteString} (h : got.length = len.toNat) :
    recvAll buffer len (got ++ rest) [some got.length] =
      some (got ++ buffer.drop len.toNat, rest) := by
  rw [recvAll, ← h, recvLoop_whole]
  rfl

end Transfers

/-- What a message looks like on the stream when no transfer fails. -/
def frame (data : ByteString) : ByteString :=
  writeUint32 data.length ++ data.take (toInt data.length).toNat

/-- The buffer a receiver ends up with when no transfer fails. -/
def delivered (data : ByteString) : ByteString :=
  data.take (toInt data.length).toNat ++
    (List.replicate (data.length % 2 ^ 32) 0).drop (toInt data.length).toNat

theorem toInt_mod (n : ℕ) : toInt (n % 2 ^ 32) = toInt n := by
  simp only [toInt, Nat.mod_mod]

theorem toInt_le (n : ℕ) : toInt n ≤ n := by
  have h := Nat.mod_le n (2 ^ 32)
  simp only [toInt]
  split_ifs <;> omega

theorem toInt_of_lt (h : n < 2 ^ 31) : toInt n = n := by
  simp only [toInt]
  split_ifs <;> omega

theorem toInt_toNat_of_ge (h : 2 ^ 31 ≤ n) (h' : n < 2 ^ 32) : (toInt n).toNat = 0 := by
  simp only [toInt]
  split_ifs <;> omega

theorem length_take_toInt (data : ByteString) :
    (data.take (toInt data.length).toNat).length = (toInt data.length).toNat := by
  have h := toInt_le data.length
  rw [List.length_take]
  omega

theorem delivered_length (data : ByteString) : (delivered data).length = data.length % 2 ^ 32 := by
  have h := toInt_le (data.length % 2 ^ 32)
  rw [toInt_mod] at h
  rw [delivered, List.length_append, length_take_toInt, List.length_drop, List.length_replicate]
  omega

theorem leValue_writeUint32 (n : ℕ) : leValue (writeUint32 n) = n % 2 ^ 32 :=
  leValue_leBytes 4 n

theorem sendAll_header (n : ℕ) (chunks : Chunks) :
    sendAll (writeUint32 n) 4 chunks = sendLoop (writeUint32 n) chunks := by
  have h : (writeUint32 n).take (4 : ℤ).toNat = writeUint32 n :=
    List.take_of_length_le (by rw [writeUint32_length]; decide)
  rw [sendAll, h]

theorem sendMessage_isPrefix (data : ByteString) (chunking : Chunking) :
    (sendMessage data chunking).1 <+: frame data := by
  have hbody := sendLoop_isPrefix (data.take (toInt data.length).toNat) chunking.body
  have hheader := sendLoop_isPrefix (writeUint32 data.length) chunking.length
  rw [sendMessage, sendAll_header]
  split_ifs with h
  · rw [sendLoop_complete h]
    exact List.prefix_append_right_inj _ |>.mpr hbody
  · exact hheader.trans (List.prefix_append ..)

/-- The header of a frame announces the length of the message modulo `2 ^ 32`. -/
theorem recvAll_header {header rest : ByteString} (hwire : wire <+: frame data)
    (h : recvAll (List.replicate 4 0) 4 wire chunks = some (header, rest)) :
    header = writeUint32 data.length ∧ rest <+: data.take (toInt data.length).toNat := by
  obtain ⟨got, hgot, hlen, hheader⟩ := recvAll_spec h
  obtain ⟨tail, htail⟩ := hwire
  have hsplit : got ++ (rest ++ tail) = frame data := by rw [← List.append_assoc, hgot, htail]
  obtain ⟨hfirst, hsecond⟩ := List.append_inj hsplit (by rw [hlen, writeUint32_length]; rfl)
  refine ⟨?_, tail, hsecond⟩
  rw [hheader, hfirst]
  simp

theorem recvMessage_of_isPrefix {chunking : Chunking} (hwire : wire <+: frame data)
    (h : recvMessage wire chunking = .ok buffer) : buffer = delivered data := by
  unfold recvMessage at h
  split at h
  · cases h
  · rename_i header rest hheader
    obtain ⟨rfl, hrest⟩ := recvAll_header hwire hheader
    simp only [leValue_writeUint32, toInt_mod] at h
    split at h
    · cases h
    · rename_i out tail hbody
      obtain ⟨got, hgot, hlen, hout⟩ := recvAll_spec hbody
      -- the body transfer asks for as many bytes as the whole frame still holds
      have hall : got = data.take (toInt data.length).toNat := by
        refine List.IsPrefix.eq_of_length ?_ (by rw [hlen, length_take_toInt])
        exact (hgot ▸ List.prefix_append got tail).trans hrest
      cases h
      rw [hout, hall, delivered]

def wholeMessage (data : ByteString) : Chunking :=
  { length := [some 4], body := [some (toInt data.length).toNat] }

theorem sendMessage_whole (data : ByteString) :
    sendMessage data (wholeMessage data) = (frame data, none) := by
  have hheader : sendAll (writeUint32 data.length) 4 [some 4] =
      (writeUint32 data.length, true) := by
    have h := sendLoop_whole (writeUint32 data.length)
    rwa [writeUint32_length, ← sendAll_header] at h
  have hbody := sendLoop_whole (data.take (toInt data.length).toNat)
  rw [length_take_toInt, ← sendAll] at hbody
  simp only [sendMessage, wholeMessage, hheader, hbody, frame, if_true]

theorem recvMessage_whole (data : ByteString) :
    recvMessage (frame data) (wholeMessage data) = .ok (delivered data) := by
  have hlength : (writeUint32 data.length).length = (4 : ℤ).toNat := writeUint32_length _
  have hheader := recvAll_whole (List.replicate 4 0) (data.take (toInt data.length).toNat) hlength
  have hnone : (List.replicate 4 (0 : Byte)).drop (4 : ℤ).toNat = [] := rfl
  rw [writeUint32_length, hnone, List.append_nil] at hheader
  have hbody := recvAll_whole (List.replicate (data.length % 2 ^ 32) 0) []
    (length_take_toInt data)
  rw [length_take_toInt, List.append_nil] at hbody
  simp only [recvMessage, wholeMessage, frame, hheader, leValue_writeUint32, toInt_mod, hbody,
    delivered]

theorem delivered_of_lt (h : data.length < 2 ^ 31) : delivered data = data := by
  have hmod : data.length % 2 ^ 32 = data.length := Nat.mod_eq_of_lt (by omega)
  rw [delivered, toInt_of_lt h, hmod]
  simp

/-- Where the signed length is negative, no byte of the message is transferred. -/
theorem delivered_eq_zeros (h : 2 ^ 31 ≤ data.length) (hlt : data.length < 2 ^ 32) :
    delivered data = List.replicate data.length 0 := by
  rw [delivered, toInt_toNat_of_ge h hlt, Nat.mod_eq_of_lt hlt]
  rfl

/-- A message of `2 ^ 31` bytes or more arrives as it was sent only if it is all zeros. -/
theorem delivered_of_ge (h : 2 ^ 31 ≤ data.length) (heq : delivered data = data) :
    data.length < 2 ^ 32 ∧ Zeros data := by
  have hlen := delivered_length data
  rw [heq] at hlen
  have hlt : data.length < 2 ^ 32 := by omega
  refine ⟨hlt, ?_⟩
  rw [delivered_eq_zeros h hlt] at heq
  intro b hb
  rw [← heq] at hb
  exact List.eq_of_mem_replicate hb

theorem delivered_serializeRequest_iff (req : Request) :
    delivered (serializeRequest req) = serializeRequest req ↔
      (serializeRequest req).length < 2 ^ 31 := by
  refine ⟨fun heq => ?_, delivered_of_lt⟩
  by_contra! hge
  obtain ⟨hlt, hzeros⟩ := delivered_of_ge hge heq
  have := hzeros.serializeRequest_length hlt
  omega

theorem delivered_serializeResponse_iff (resp : Response) :
    delivered (serializeResponse resp) = serializeResponse resp ↔
      (serializeResponse resp).length < 2 ^ 31 := by
  refine ⟨fun heq => ?_, delivered_of_lt⟩
  by_contra! hge
  obtain ⟨hlt, hzeros⟩ := delivered_of_ge hge heq
  have := hzeros.serializeResponse_length hlt
  omega

section Exchanges

variable (handler : Session → Request → Response) (remoteAddr : ByteString) (req : Request)

theorem recvMessage_sendMessage (data : ByteString) (sent received : Chunking) :
    (recvMessage (sendMessage data sent).1 received).toOption = none ∨
      (recvMessage (sendMessage data sent).1 received).toOption = some (delivered data) := by
  cases h : recvMessage (sendMessage data sent).1 received with
  | error part => exact .inl rfl
  | ok buffer =>
    rw [recvMessage_of_isPrefix (sendMessage_isPrefix data sent) h]
    exact .inr rfl

theorem recvMessage_nil (chunking : Chunking) : recvMessage [] chunking = .error .length := by
  have h : recvAll (List.replicate 4 0) 4 [] chunking.length = none := by
    cases hheader : recvAll (List.replicate 4 0) 4 [] chunking.length with
    | none => rfl
    | some r =>
      obtain ⟨got, hgot, hlen, -⟩ := recvAll_spec hheader
      simp_all
  simp only [recvMessage, h]

theorem clientOutcome_cases (failed : Option Part) (sent received : Chunking)
    (response : Option Response) :
    ((clientOutcome failed (answerBytes sent response) received).1 = none ∧
      ∃ e, (clientOutcome failed (answerBytes sent response) received).2 = .error e) ∨
    ∃ resp, response = some resp ∧ (clientOutcome failed (answerBytes sent response) received).1 =
      some (delivered (serializeResponse resp)) := by
  unfold clientOutcome
  split
  · exact .inl ⟨rfl, _, rfl⟩
  · split
    · exact .inl ⟨rfl, _, rfl⟩
    · rename_i data hdata
      cases response with
      | none =>
        rw [answerBytes, recvMessage_nil] at hdata
        cases hdata
      | some resp =>
        rw [recvMessage_of_isPrefix (sendMessage_isPrefix _ sent) hdata]
        exact .inr ⟨resp, rfl, rfl⟩

/-- The schedule of an exchange in which every transfer is one call. -/
def wholeSchedule : Schedule :=
  let resp := answer handler remoteAddr (delivered (serializeRequest req))
  { requestSent := wholeMessage (serializeRequest req)
    requestReceived := wholeMessage (serializeRequest req)
    responseSent := wholeMessage (serializeResponse resp)
    responseReceived := wholeMessage (serializeResponse resp) }

theorem exchange_whole :
    (exchange handler remoteAddr req (wholeSchedule handler remoteAddr req)).requestBuffer =
      some (delivered (serializeRequest req)) ∧
    (exchange handler remoteAddr req (wholeSchedule handler remoteAddr req)).responseBuffer =
      some (delivered (serializeResponse
        (answer handler remoteAddr (delivered (serializeRequest req))))) := by
  simp only [exchange, wholeSchedule, sendMessage_whole, recvMessage_whole, Except.toOption,
    Option.map_some, answerBytes, clientOutcome, and_self]

theorem exchange_response (schedule : Schedule) :
    (exchange handler remoteAddr req schedule).response =
      (exchange handler remoteAddr req schedule).requestBuffer.map (answer handler remoteAddr) :=
  rfl

theorem answer_serializeRequest (h : (serializeRequest req).length < 2 ^ 32) :
    answer handler remoteAddr (serializeRequest req) =
      handler { clientId := req.requestId, remoteAddr } req := by
  rw [answer, deserializeRequest_serializeRequest h]

/-- Every way to cut an exchange is exact if and only if the request and the
response to it are both shorter than `2 ^ 31` bytes. -/
theorem framing_exact_iff :
    (∀ schedule, (exchange handler remoteAddr req schedule).Exact req) ↔
      (serializeRequest req).length < 2 ^ 31 ∧
        (serializeResponse (handler { clientId := req.requestId, remoteAddr } req)).length
          < 2 ^ 31 := by
  constructor
  · intro hexact
    obtain ⟨hrequest, hresponse⟩ := exchange_whole handler remoteAddr req
    have h := hexact (wholeSchedule handler remoteAddr req)
    have hreq : (serializeRequest req).length < 2 ^ 31 := by
      rw [← delivered_serializeRequest_iff]
      simpa [hrequest] using h.request
    rw [delivered_of_lt hreq, answer_serializeRequest handler remoteAddr req (by omega)]
      at hresponse
    refine ⟨hreq, ?_⟩
    rw [← delivered_serializeResponse_iff]
    obtain ⟨resp, hsent, hdelivered⟩ | ⟨hnone, -⟩ := h.response
    · rw [exchange_response, hrequest, delivered_of_lt hreq, Option.map_some,
        answer_serializeRequest handler remoteAddr req (by omega)] at hsent
      obtain rfl := Option.some.inj hsent
      rw [hresponse] at hdelivered
      exact Option.some.inj hdelivered
    · rw [hresponse] at hnone
      cases hnone
  · rintro ⟨hreq, hresp⟩ schedule
    have hbuffer := recvMessage_sendMessage (serializeRequest req) schedule.requestSent
      schedule.requestReceived
    have hsent := exchange_response handler remoteAddr req schedule
    have hreply := clientOutcome_cases (sendMessage (serializeRequest req) schedule.requestSent).2
      schedule.responseSent schedule.responseReceived
      (exchange handler remoteAddr req schedule).response
    rw [delivered_of_lt hreq] at hbuffer
    obtain hnone | hsome := hbuffer
    · -- a server without a request closes the connection, and the client fails
      replace hsent := hsent.trans (congrArg _ hnone)
      obtain hfailed | ⟨resp, hnever, -⟩ := hreply
      · exact ⟨.inr ⟨hnone, hfailed.2⟩, .inr hfailed⟩
      · rw [hsent] at hnever
        cases hnever
    · replace hsent := hsent.trans (congrArg _ hsome)
      rw [Option.map_some, answer_serializeRequest handler remoteAddr req (by omega)] at hsent
      refine ⟨.inl hsome, ?_⟩
      obtain hfailed | ⟨resp, hanswer, hdelivered⟩ := hreply
      · exact .inr hfailed
      · obtain rfl : handler { clientId := req.requestId, remoteAddr } req = resp :=
          Option.some.inj (hsent.symm.trans hanswer)
        rw [delivered_of_lt hresp] at hdelivered
        exact .inl ⟨_, hsent, hdelivered⟩

end Exchanges

def longRequest (n : ℕ) : Request := { sql := List.replicate n 97 }

theorem longRequest_length (n : ℕ) : (serializeRequest (longRequest n)).length = 16 + n := by
  rw [serializeRequest_length]
  simp [longRequest]

/-- A server is handed zeros in the place of a request with `2 ^ 31` bytes of SQL. -/
theorem framing_hands_over_zeros :
    (exchange (fun _ _ => {}) [] (longRequest (2 ^ 31))
      (wholeSchedule (fun _ _ => {}) [] (longRequest (2 ^ 31)))).requestBuffer =
        some (List.replicate (16 + 2 ^ 31) 0) ∧
      List.replicate (16 + 2 ^ 31) 0 ≠ serializeRequest (longRequest (2 ^ 31)) := by
  have hlen := longRequest_length (2 ^ 31)
  have hzeros : delivered (serializeRequest (longRequest (2 ^ 31))) =
      List.replicate (16 + 2 ^ 31) 0 := by
    rw [delivered_eq_zeros (by omega) (by omega), hlen]
  refine ⟨?_, ?_⟩
  · rw [← hzeros]
    exact (exchange_whole _ _ _).1
  · rw [← hzeros, Ne, delivered_serializeRequest_iff, hlen]
    omega

end CourseDb.Framing

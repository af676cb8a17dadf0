import CourseDb.Cluster.ConsistentHash
import CourseDb.Network.Protocol
import CourseDb.Parser.Parser

/-! # The entrypoint

The entrypoint answers management commands itself and forwards every other
request to the storage node that the ring names. It recognises management
commands by their text, not by parsing them.
-/

namespace CourseDb

inductive NodeHealth where
  | kUnknown
  | kHealthy
  | kUnhealthy
deriving DecidableEq, Repr

structure NodeConfig where
  id : ByteString
  host : ByteString
  port : ℤ
deriving DecidableEq

structure NodeState where
  config : NodeConfig
  health : NodeHealth := .kUnknown
  lastSeenMs : ℤ := 0
deriving DecidableEq

structure EntrypointNode where
  ring : ConsistentHashRing
  nodes : ByteString → Option NodeState

namespace EntrypointNode

/-- `text.find(part) != npos`. -/
def contains (part text : ByteString) : Bool := text.tails.any part.isPrefixOf

def errorResponse (message : ByteString) : Response := { ok := false, error := message }

/-- What became of a request. -/
inductive Outcome where
  | answered (resp : Response)
  | forwarded (node : NodeConfig) (req : Request) (resp : Response)
deriving DecidableEq

/-- What the entrypoint is connected to: the storage nodes behind `TcpClient`,
the aggregated metrics as a JSON text, and the clock. -/
structure World where
  send : NodeConfig → Request → Except Status Response
  metrics : ByteString
  nowMs : ℤ

variable (world : World) (e : EntrypointNode) (req : Request)

def shardKey : ByteString := if req.database.isEmpty then req.sql.take 64 else req.database

def healthyNode (id : ByteString) : Option NodeState :=
  (e.nodes id).filter fun state => state.health ≠ .kUnhealthy

def resolveNode (shardKey : ByteString) : Option NodeState :=
  let nodeId := e.ring.getNode shardKey
  if nodeId.isEmpty then none
  else
    match e.nodes nodeId with
    | none => none
    | some state =>
      if state.health = .kUnhealthy then
        e.ring.allNodes.findSome? fun id => if id = nodeId then none else e.healthyNode id
      else some state

def forwardToNode (node : NodeConfig) : Response :=
  match world.send node req with
  | .ok resp => resp
  | .error s =>
    errorResponse (ascii "storage node unreachable: " ++ node.id ++ ascii " - " ++ ascii s.message)

def handleManagement : Response :=
  if contains (ascii "SHOW METRICS") req.sql then
    { ok := true
      result := { ok := true, columns := [ascii "metrics"], rows := [[.string world.metrics]] } }
  else errorResponse (ascii "unsupported management command")

def touch (id : ByteString) : EntrypointNode :=
  { e with nodes := fun id' =>
      if id' = id then (e.nodes id).map fun state => { state with lastSeenMs := world.nowMs }
      else e.nodes id' }

def handleRequest : Outcome × EntrypointNode :=
  if contains (ascii "SHOW METRICS") req.sql || contains (ascii "ADD NODE") req.sql ||
      contains (ascii "REMOVE NODE") req.sql then
    (.answered (handleManagement world req), e)
  else
    match e.resolveNode (shardKey req) with
    | none => (.answered (errorResponse (ascii "no healthy storage nodes available")), e)
    | some node =>
      (.forwarded node.config req (forwardToNode world req node.config),
        touch world e node.config.id)

/-- A statement other than SHOW METRICS is forwarded or refused, and SHOW METRICS
is answered. -/
def Respects (stmt : SqlStatement) (outcome : Outcome) : Prop :=
  if stmt = .showMetrics then ∃ resp, outcome = .answered resp ∧ resp.ok = true
  else (∃ node resp, outcome = .forwarded node req resp) ∨
    ∃ resp, outcome = .answered resp ∧ resp.ok = false

theorem handleRequest_other (h : contains (ascii "SHOW METRICS") req.sql = false) :
    (∃ node resp, (handleRequest world e req).1 = .forwarded node req resp) ∨
      ∃ resp, (handleRequest world e req).1 = .answered resp ∧ resp.ok = false := by
  unfold handleRequest
  split_ifs with hmanagement
  · refine .inr ⟨_, rfl, ?_⟩
    rw [handleManagement, h]
    rfl
  · split
    · exact .inr ⟨_, rfl, rfl⟩
    · exact .inl ⟨_, _, rfl⟩

theorem respects_iff (stmt : SqlStatement) :
    Respects req stmt (handleRequest world e req).1 ↔
      (stmt = .showMetrics ↔ contains (ascii "SHOW METRICS") req.sql = true) := by
  cases h : contains (ascii "SHOW METRICS") req.sql with
  | true =>
    obtain ⟨resp, hanswered, hok⟩ : ∃ resp, (handleRequest world e req).1 = .answered resp ∧
        resp.ok = true := by
      refine ⟨_, by rw [handleRequest, h]; rfl, ?_⟩
      rw [handleManagement, h]
      rfl
    by_cases hstmt : stmt = .showMetrics <;> simp [Respects, hstmt, hanswered, hok]
  | false =>
    have hother := handleRequest_other world e req h
    by_cases hstmt : stmt = .showMetrics
    · simp only [Respects, hstmt, if_true]
      constructor
      · rintro ⟨resp, hanswered, hok⟩
        obtain ⟨node, resp', hforwarded⟩ | ⟨resp', hanswered', hok'⟩ := hother
        · rw [hanswered] at hforwarded
          cases hforwarded
        · rw [hanswered] at hanswered'
          cases hanswered'
          rw [hok] at hok'
          cases hok'
      · simp
    · simp [Respects, hstmt, hother]

/-- The dispatch agrees with the parser if and only if the text contains
`SHOW METRICS` exactly where it parses as that statement. -/
theorem entrypoint_dispatch_iff (mktime : Parser.Mktime) :
    (∀ stmt, Parser.parse mktime req.sql = .ok stmt →
      Respects req stmt (handleRequest world e req).1) ↔
    ∀ stmt, Parser.parse mktime req.sql = .ok stmt →
      (stmt = .showMetrics ↔ contains (ascii "SHOW METRICS") req.sql = true) :=
  forall_congr' fun stmt => imp_congr_right fun _ => respects_iff world e req stmt

def firstNode : NodeConfig := { id := ascii "n1", host := ascii "127.0.0.1", port := 9000 }

def oneNode : EntrypointNode where
  ring := ConsistentHashRing.addNode firstNode.id { virtualNodes := 1 }
  nodes id := if id = firstNode.id then some { config := firstNode } else none

/-- A world in which every storage node answers with an empty result. -/
def quiet : World := { send := fun _ _ => .ok {}, metrics := [], nowMs := 0 }

/-- A string literal makes the entrypoint answer a SELECT with metrics, and a
second blank makes it forward SHOW METRICS. -/
theorem entrypoint_swallows_select :
    let select := ascii "SELECT * FROM t WHERE c == 'SHOW METRICS';"
    let metrics := ascii "SHOW  METRICS;"
    (Parser.parse (fun _ => none) select = .ok (.select [] (ascii "t") true []
        (some (.binary .kEq (.columnRef (ascii "c")) (.literal (.string (ascii "SHOW METRICS")))))) ∧
      (handleRequest quiet oneNode { sql := select }).1 = .answered
        { result := { columns := [ascii "metrics"], rows := [[.string []]] } }) ∧
    Parser.parse (fun _ => none) metrics = .ok .showMetrics ∧
      (handleRequest quiet oneNode { sql := metrics }).1 =
        .forwarded firstNode { sql := metrics } {} := by
  decide +kernel

end EntrypointNode

end CourseDb

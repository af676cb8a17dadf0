import CourseDb.Cluster.Entrypoint
import CourseDb.Cluster.HashRange
import CourseDb.Cluster.RingMembers

/-! # Which node a request is sent to

The entrypoint chooses the node by a key that it takes from the envelope of a
request, while the statement inside decides which database is meant. Two
requests are forwarded to the same node of every cluster exactly if neither is
taken for a management command and their keys have the same hash.
-/

namespace CourseDb

/-- The database that a statement names, empty if it names none; `none` for a
statement that is not about a database. -/
def SqlStatement.namedDatabase : SqlStatement → Option ByteString
  | createDatabase dbName => some dbName
  | dropDatabase dbName => some dbName
  | createTable databaseName _ _ => some databaseName
  | dropTable databaseName _ => some databaseName
  | insert databaseName _ _ _ => some databaseName
  | select databaseName _ _ _ _ => some databaseName
  | update databaseName _ _ _ => some databaseName
  | delete databaseName _ _ => some databaseName
  | revert databaseName _ _ => some databaseName
  | _ => none

/-- The database that the statement of a data request addresses. -/
def Request.addressed (mktime : Parser.Mktime) (req : Request) : Option ByteString :=
  match Parser.parse mktime req.sql with
  | .error _ => none
  | .ok stmt => stmt.namedDatabase.map fun name => if name.isEmpty then req.database else name

namespace EntrypointNode

/-- The loop body of the constructor. -/
def register (nc : NodeConfig) (e : EntrypointNode) : EntrypointNode where
  ring := e.ring.addNode nc.id
  nodes := Function.update e.nodes nc.id (some { config := nc })

def addNode (nc : NodeConfig) (e : EntrypointNode) : Except Status Unit × EntrypointNode :=
  if (e.nodes nc.id).isSome then
    (.error ⟨.kAlreadyExists, "node already registered: " ++ quoted nc.id⟩, e)
  else
    (.ok (), e.register nc)

def removeNode (nodeId : ByteString) (e : EntrypointNode) : Except Status Unit × EntrypointNode :=
  if (e.nodes nodeId).isNone then
    (.error ⟨.kNotFound, "node not found: " ++ quoted nodeId⟩, e)
  else
    (.ok (), { ring := e.ring.removeNode nodeId, nodes := Function.update e.nodes nodeId none })

/-- What the health check notes about a node that has answered or not. -/
def noteHealth (id : ByteString) (alive : Bool) (nowMs : ℤ) (e : EntrypointNode) :
    EntrypointNode :=
  { e with
    nodes := Function.update e.nodes id <| (e.nodes id).map fun state =>
      if alive then { state with health := .kHealthy, lastSeenMs := nowMs }
      else { state with health := .kUnhealthy } }

inductive Event where
  | configured (nc : NodeConfig)
  | added (nc : NodeConfig)
  | removed (nodeId : ByteString)
  | checked (id : ByteString) (alive : Bool) (nowMs : ℤ)
  | requested (world : World) (req : Request)

def onEvent (e : EntrypointNode) : Event → EntrypointNode
  | .configured nc => e.register nc
  | .added nc => (e.addNode nc).2
  | .removed nodeId => (e.removeNode nodeId).2
  | .checked id alive nowMs => e.noteHealth id alive nowMs
  | .requested world req => (handleRequest world e req).2

/-- The entrypoint with `v` virtual nodes per node after some events. -/
def after (v : ℕ) (events : List Event) : EntrypointNode :=
  events.foldl onEvent { ring := { virtualNodes := v }, nodes := fun _ => none }

/-- The same nodes with the same health. -/
structure SameCluster (e e' : EntrypointNode) : Prop where
  ring : e'.ring = e.ring
  nodes : ∀ id, (e'.nodes id).map (fun state => (state.config, state.health)) =
    (e.nodes id).map fun state => (state.config, state.health)

def Outcome.node : Outcome → Option NodeConfig
  | .answered _ => none
  | .forwarded node _ _ => some node

def isManagement (req : Request) : Bool :=
  contains (ascii "SHOW METRICS") req.sql || contains (ascii "ADD NODE") req.sql ||
    contains (ascii "REMOVE NODE") req.sql

theorem handleRequest_of_resolveNode {e : EntrypointNode} {req : Request} {node : NodeState}
    (world : World) (hmanagement : isManagement req = false)
    (h : e.resolveNode (shardKey req) = some node) :
    (handleRequest world e req).1 =
      .forwarded node.config req (forwardToNode world req node.config) := by
  unfold isManagement at hmanagement
  rw [handleRequest, hmanagement, h]
  rfl

theorem handleRequest_of_management {e : EntrypointNode} {req : Request} (world : World)
    (h : isManagement req = true) :
    (handleRequest world e req).1 = .answered (handleManagement world req) := by
  unfold isManagement at h
  rw [handleRequest, h]
  rfl

section Resolution

variable {e e' : EntrypointNode}

theorem SameCluster.node_cases (h : SameCluster e e') (id : ByteString) :
    (e.nodes id = none ∧ e'.nodes id = none) ∨
      ∃ s s', e.nodes id = some s ∧ e'.nodes id = some s' ∧ s'.config = s.config ∧
        s'.health = s.health := by
  have hid := h.nodes id
  rcases hn : e.nodes id with _ | s <;> rcases hn' : e'.nodes id with _ | s' <;> rw [hn, hn'] at hid
  · exact .inl ⟨rfl, rfl⟩
  · cases hid
  · cases hid
  · exact .inr ⟨s, s', rfl, rfl, by simpa using hid⟩

theorem SameCluster.healthyNode (h : SameCluster e e') (id : ByteString) :
    (e'.healthyNode id).map NodeState.config = (e.healthyNode id).map NodeState.config := by
  unfold EntrypointNode.healthyNode
  obtain ⟨hn, hn'⟩ | ⟨s, s', hn, hn', hconfig, hhealth⟩ := h.node_cases id
  · rw [hn, hn']
  · rw [hn, hn']
    simp only [Option.filter_some, hhealth]
    split_ifs
    · simp [hconfig]
    · rfl

/-- The node depends on the cluster and on the hash of the key. -/
theorem SameCluster.resolveNode (h : SameCluster e e') {k k' : ByteString}
    (hk : ConsistentHashRing.hash k = ConsistentHashRing.hash k') :
    (e'.resolveNode k').map NodeState.config = (e.resolveNode k).map NodeState.config := by
  unfold EntrypointNode.resolveNode
  have hget : e.ring.getNode k' = e.ring.getNode k := by simp only [ConsistentHashRing.getNode, hk]
  rw [h.ring, hget]
  dsimp only
  split_ifs with hempty
  · rfl
  obtain ⟨hn, hn'⟩ | ⟨s, s', hn, hn', hconfig, hhealth⟩ := h.node_cases (e.ring.getNode k)
  · rw [hn, hn']
  · rw [hn, hn']
    simp only [hhealth]
    split_ifs
    · rw [List.map_findSome?, List.map_findSome?]
      congr 1
      funext id
      simp only [Function.comp]
      split_ifs
      · rfl
      · exact h.healthyNode id
    · simp [hconfig]

end Resolution

section Separation

open ConsistentHashRing CourseDb.Circle

variable {e : EntrypointNode} {k : ByteString} {nc a b : NodeConfig}

theorem resolveNode_of_getNode (hid : nc.id ≠ []) (hget : e.ring.getNode k = nc.id)
    (hnode : e.nodes nc.id = some { config := nc }) :
    e.resolveNode k = some { config := nc } := by
  have hempty : nc.id.isEmpty = false := by simpa using hid
  simp [resolveNode, hget, hempty, hnode]

/-- A node gets the keys with the hash of one of its points. -/
theorem resolveNode_of_point (hring : Ascending (2 ^ 32) e.ring.ring)
    (hpoint : (ConsistentHashRing.hash k, nc.id) ∈ e.ring.ring) (hid : nc.id ≠ [])
    (hnode : e.nodes nc.id = some { config := nc }) :
    e.resolveNode k = some { config := nc } := by
  refine resolveNode_of_getNode hid (getNode_eq hring ⟨hpoint, fun q _ => ?_⟩) hnode
  rw [distance_self]
  exact Nat.zero_le _

def startTwo (a b : NodeConfig) : List Event := [.configured a, .configured b]

theorem resolveNode_startTwo (hne : ConsistentHashRing.hash (vnodeKey a.id 0) ≠
      ConsistentHashRing.hash (vnodeKey b.id 0)) (ha : a.id ≠ []) (hb : b.id ≠ []) :
    (∀ k, ConsistentHashRing.hash k = ConsistentHashRing.hash (vnodeKey a.id 0) →
      (after 1 (startTwo a b)).resolveNode k = some { config := a }) ∧
    ∀ k, ConsistentHashRing.hash k = ConsistentHashRing.hash (vnodeKey b.id 0) →
      (after 1 (startTwo a b)).resolveNode k = some { config := b } := by
  have hids : a.id ≠ b.id := by
    intro heq
    rw [heq] at hne
    exact hne rfl
  have hchanges : ∀ c ∈ [Change.add a.id, Change.add b.id],
      c.nodeId ∈ ({a.id, b.id} : Set ByteString) := by simp [Change.nodeId]
  obtain ⟨hpoints, -⟩ := hasPointsOf_after (distinct_pair hne) hchanges
  have hring : (after 1 (startTwo a b)).ring =
      ConsistentHashRing.after 1 [.add a.id, .add b.id] := rfl
  have hmembers : members [.add a.id, .add b.id] = {b.id, a.id} := rfl
  rw [hmembers] at hpoints
  refine ⟨fun k hk => ?_, fun k hk => ?_⟩
  · refine resolveNode_of_point (hring ▸ hpoints.ascending) ?_ ha ?_
    · rw [hring, hpoints.mem_iff, hk]
      exact ⟨a.id, by simp, 0, by decide, rfl⟩
    · simp [after, startTwo, onEvent, register, Function.update_of_ne hids]
  · refine resolveNode_of_point (hring ▸ hpoints.ascending) ?_ hb ?_
    · rw [hring, hpoints.mem_iff, hk]
      exact ⟨b.id, by simp, 0, by decide, rfl⟩
    · simp [after, startTwo, onEvent, register]

/-- For every hash there are two nodes, and the first gets the keys with that
hash and the second those with another one. -/
theorem exists_startTwo {h h' : ℕ} (hh : h < 2 ^ 32) (hh' : h' < 2 ^ 32) (hne : h ≠ h') :
    ∃ a b : NodeConfig, a ≠ b ∧
      (∀ k, ConsistentHashRing.hash k = h →
        (after 1 (startTwo a b)).resolveNode k = some { config := a }) ∧
      ∀ k, ConsistentHashRing.hash k = h' →
        (after 1 (startTwo a b)).resolveNode k = some { config := b } := by
  obtain ⟨id, hid, hpoint⟩ := exists_nodeId hh
  obtain ⟨id', hid', hpoint'⟩ := exists_nodeId hh'
  have hpoints : ConsistentHashRing.hash (vnodeKey id 0) ≠
      ConsistentHashRing.hash (vnodeKey id' 0) := by
    rw [hpoint, hpoint']
    exact hne
  obtain ⟨hfirst, hsecond⟩ := resolveNode_startTwo (a := ⟨id, [], 0⟩) (b := ⟨id', [], 0⟩) hpoints
    hid hid'
  refine ⟨⟨id, [], 0⟩, ⟨id', [], 0⟩, fun heq => hpoints ?_, fun k hk => hfirst k ?_,
    fun k hk => hsecond k ?_⟩
  · cases heq
    rfl
  · rw [hk, ← hpoint]
  · rw [hk, ← hpoint']

end Separation

/-- In every cluster, as long as its nodes and their health stay the same, both requests are
forwarded, and to the same node, unless neither of their keys leads to a node. -/
def SameNode (req req' : Request) : Prop :=
  ∀ v events events' world world', SameCluster (after v events) (after v events') →
    (∃ state, (after v events).resolveNode (shardKey req) = some state) ∨
      (∃ state, (after v events').resolveNode (shardKey req') = some state) →
    ∃ node resp resp',
      (handleRequest world (after v events) req).1 = .forwarded node req resp ∧
        (handleRequest world' (after v events') req').1 = .forwarded node req' resp'

/-- Neither request is taken for a management command, and their keys have one hash. -/
def RoutedAlike (req req' : Request) : Prop :=
  isManagement req = false ∧ isManagement req' = false ∧
    ConsistentHashRing.hash (shardKey req) = ConsistentHashRing.hash (shardKey req')

section SameNode

variable {req req' : Request}

theorem SameCluster.refl (e : EntrypointNode) : SameCluster e e := ⟨rfl, fun _ => rfl⟩

theorem sameNode_of_routedAlike (h : RoutedAlike req req') : SameNode req req' := by
  obtain ⟨hm, hm', hhash⟩ := h
  intro v events events' world world' hsame hfound
  have hnodes := hsame.resolveNode hhash
  rcases hnode : (after v events).resolveNode (shardKey req) with _ | node <;>
    rcases hnode' : (after v events').resolveNode (shardKey req') with _ | node' <;>
      rw [hnode, hnode'] at hnodes
  · rw [hnode, hnode'] at hfound
    obtain ⟨state, hstate⟩ | ⟨state, hstate⟩ := hfound <;> cases hstate
  · cases hnodes
  · cases hnodes
  · have hconfig : node'.config = node.config := Option.some.inj hnodes
    have hsent := handleRequest_of_resolveNode world' hm' hnode'
    rw [hconfig] at hsent
    exact ⟨_, _, _, handleRequest_of_resolveNode world hm hnode, hsent⟩

/-- In some cluster the two keys lead to nodes, and to different ones if their hashes differ. -/
theorem exists_nodes (req req' : Request) :
    ∃ events node node', (after 1 events).resolveNode (shardKey req) = some node ∧
      (after 1 events).resolveNode (shardKey req') = some node' ∧
      (node.config = node'.config →
        ConsistentHashRing.hash (shardKey req) = ConsistentHashRing.hash (shardKey req')) := by
  have hlt := ConsistentHashRing.hash_lt (shardKey req)
  by_cases heq : ConsistentHashRing.hash (shardKey req) = ConsistentHashRing.hash (shardKey req')
  · obtain ⟨h', hh', hne⟩ : ∃ h' < 2 ^ 32, ConsistentHashRing.hash (shardKey req) ≠ h' := by
      by_cases hzero : ConsistentHashRing.hash (shardKey req) = 0
      · exact ⟨1, by norm_num, by omega⟩
      · exact ⟨0, by norm_num, hzero⟩
    obtain ⟨a, b, -, hfirst, -⟩ := exists_startTwo hlt hh' hne
    exact ⟨startTwo a b, _, _, hfirst _ rfl, hfirst _ heq.symm, fun _ => heq⟩
  · obtain ⟨a, b, hab, hfirst, hsecond⟩ := exists_startTwo hlt
      (ConsistentHashRing.hash_lt (shardKey req')) heq
    exact ⟨startTwo a b, _, _, hfirst _ rfl, hsecond _ rfl, fun hsame => absurd hsame hab⟩

theorem routedAlike_of_sameNode (h : SameNode req req') : RoutedAlike req req' := by
  obtain ⟨events, node, node', hnode, hnode', hhash⟩ := exists_nodes req req'
  obtain ⟨sent, resp, resp', hsent, hsent'⟩ := h 1 events events quiet quiet (.refl _)
    (.inl ⟨node, hnode⟩)
  have hm : isManagement req = false := by
    by_contra hm
    rw [handleRequest_of_management quiet (by simpa using hm)] at hsent
    cases hsent
  have hm' : isManagement req' = false := by
    by_contra hm'
    rw [handleRequest_of_management quiet (by simpa using hm')] at hsent'
    cases hsent'
  rw [handleRequest_of_resolveNode quiet hm hnode] at hsent
  rw [handleRequest_of_resolveNode quiet hm' hnode'] at hsent'
  cases hsent
  exact ⟨hm, hm', hhash (by injection hsent' with hconfig; exact hconfig.symm)⟩

/-- Two requests for one database are forwarded to one node exactly if neither is taken for a
management command and their shard keys have one hash. -/
theorem one_database_one_node_iff (mktime : Parser.Mktime) (req req' : Request) :
    (∀ db, req.addressed mktime = some db → req'.addressed mktime = some db →
      SameNode req req') ↔
    ∀ db, req.addressed mktime = some db → req'.addressed mktime = some db →
      RoutedAlike req req' :=
  forall_congr' fun _ => imp_congr_right fun _ => imp_congr_right fun _ =>
    ⟨routedAlike_of_sameNode, sameNode_of_routedAlike⟩

end SameNode

def secondNode : NodeConfig := { id := ascii "n2", host := ascii "127.0.0.1", port := 9001 }

/-- A row is inserted on one node, and the table is read on another. -/
theorem one_database_two_nodes :
    let insert : Request := { sql := ascii "INSERT INTO shop.t (id) VALUE (1);" }
    let select : Request := { database := ascii "shop", sql := ascii "SELECT * FROM t;" }
    insert.addressed (fun _ => none) = some (ascii "shop") ∧
      select.addressed (fun _ => none) = some (ascii "shop") ∧
      (handleRequest quiet (after 1 (startTwo firstNode secondNode)) insert).1.node =
        some firstNode ∧
      (handleRequest quiet (after 1 (startTwo firstNode secondNode)) select).1.node =
        some secondNode := by
  decide +kernel

end EntrypointNode

end CourseDb

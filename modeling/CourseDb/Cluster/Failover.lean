import CourseDb.Cluster.Routing

/-! # Failover

The entrypoint keeps the nodes in a map and on the ring, and asks the one with
what the other has told. The owners on the ring are registered in the map after
any history. Routing then finds a usable node whenever there is one, unless a
node has the empty id, which the ring also gives for a ring without nodes.
-/

namespace CourseDb.EntrypointNode

open ConsistentHashRing CourseDb.Circle

/-- The nodes that were added and not removed since. -/
def registeredAfter (ids : Finset ByteString) : Event → Finset ByteString
  | .configured nc => insert nc.id ids
  | .added nc => insert nc.id ids
  | .removed nodeId => ids.erase nodeId
  | .checked _ _ _ => ids
  | .requested _ _ => ids

def registered (events : List Event) : Finset ByteString := events.foldl registeredAfter ∅

/-- The map and the ring are about the registered nodes. -/
structure InStep (v : ℕ) (ids : Finset ByteString) (e : EntrypointNode) : Prop where
  nodes : ∀ id, id ∈ ids ↔ ∃ state, e.nodes id = some state
  config : ∀ {id state}, e.nodes id = some state → state.config.id = id
  virtualNodes : e.ring.virtualNodes = v
  ascending : Ascending (2 ^ 32) e.ring.ring
  owners : ∀ p ∈ e.ring.ring, p.2 ∈ ids ∧ ∃ i < v, p.1 = ConsistentHashRing.hash (vnodeKey p.2 i)

section Steps

variable {v : ℕ} {ids : Finset ByteString} {e : EntrypointNode}

theorem InStep.register (h : InStep v ids e) (nc : NodeConfig) :
    InStep v (insert nc.id ids) (e.register nc) := by
  obtain ⟨hascending, hmem⟩ :=
    addLoop_spec nc.id (List.range e.ring.virtualNodes) h.ascending
  refine ⟨fun id => ?_, fun {id state} hstate => ?_, h.virtualNodes, hascending, fun p hp => ?_⟩
  · rw [Finset.mem_insert, h.nodes]
    by_cases hid : id = nc.id
    · simp [EntrypointNode.register, hid]
    · simp [EntrypointNode.register, hid]
  · by_cases hid : id = nc.id
    · subst hid
      simp only [EntrypointNode.register, Function.update_self, Option.some.injEq] at hstate
      rw [← hstate]
    · simp only [EntrypointNode.register, Function.update_of_ne hid] at hstate
      exact h.config hstate
  · rcases (hmem p).mp hp with ⟨i, hi, rfl⟩ | ⟨hold, -⟩
    · rw [List.mem_range, h.virtualNodes] at hi
      exact ⟨Finset.mem_insert_self _ _, i, hi, rfl⟩
    · obtain ⟨hid, hpoint⟩ := h.owners p hold
      exact ⟨Finset.mem_insert_of_mem hid, hpoint⟩

theorem InStep.removeNode (h : InStep v ids e) (nodeId : ByteString) :
    InStep v (ids.erase nodeId) (e.removeNode nodeId).2 := by
  rw [EntrypointNode.removeNode]
  split_ifs with hnone
  · have hnot : nodeId ∉ ids := by
      rw [h.nodes]
      rintro ⟨state, hstate⟩
      rw [hstate] at hnone
      cases hnone
    rw [Finset.erase_eq_of_notMem hnot]
    exact h
  · obtain ⟨hascending, hmem⟩ :=
      removeLoop_spec nodeId (List.range e.ring.virtualNodes) h.ascending
    refine ⟨fun id => ?_, fun {id state} hstate => ?_, h.virtualNodes, hascending, fun p hp => ?_⟩
    · rw [Finset.mem_erase, h.nodes]
      by_cases hid : id = nodeId
      · simp [hid]
      · simp [hid]
    · change Function.update e.nodes nodeId none id = some state at hstate
      by_cases hid : id = nodeId
      · subst hid
        simp at hstate
      · rw [Function.update_of_ne hid] at hstate
        exact h.config hstate
    · obtain ⟨hold, hother⟩ := (hmem p).mp hp
      obtain ⟨hid, i, hi, hpoint⟩ := h.owners p hold
      refine ⟨Finset.mem_erase.mpr ⟨?_, hid⟩, i, hi, hpoint⟩
      intro heq
      rw [heq] at hpoint
      exact hother i (List.mem_range.mpr (h.virtualNodes ▸ hi)) hpoint

theorem InStep.note {nodes : ByteString → Option NodeState} (h : InStep v ids e)
    (hnodes : ∀ id, (nodes id).map NodeState.config = (e.nodes id).map NodeState.config) :
    InStep v ids { e with nodes } := by
  refine ⟨fun id => ?_, fun {id state} hstate => ?_, h.virtualNodes, h.ascending, h.owners⟩
  · have hid := hnodes id
    rw [h.nodes]
    cases hn : nodes id <;> cases he : e.nodes id <;> simp_all
  · have hid := hnodes id
    change nodes id = some state at hstate
    rw [hstate, Option.map_some, eq_comm, Option.map_eq_some_iff] at hid
    obtain ⟨state', hstate', hconfig⟩ := hid
    rw [← hconfig, h.config hstate']

theorem InStep.onEvent (h : InStep v ids e) (event : Event) :
    InStep v (registeredAfter ids event) (e.onEvent event) := by
  cases event with
  | configured nc => exact h.register nc
  | added nc =>
    rw [EntrypointNode.onEvent, addNode]
    split_ifs with hsome
    · have hmem : nc.id ∈ ids := (h.nodes nc.id).mpr (Option.isSome_iff_exists.mp hsome)
      rw [registeredAfter, Finset.insert_eq_self.mpr hmem]
      exact h
    · exact h.register nc
  | removed nodeId => exact h.removeNode nodeId
  | checked id alive nowMs =>
    refine h.note fun id' => ?_
    by_cases hid : id' = id
    · subst hid
      rw [Function.update_self, Option.map_map]
      congr 1
      funext state
      cases alive <;> rfl
    · rw [Function.update_of_ne hid]
  | requested world req =>
    rw [EntrypointNode.onEvent, handleRequest]
    split_ifs
    · exact h
    · split
      · exact h
      · refine h.note fun id' => ?_
        split_ifs with hid
        · subst hid
          rw [Option.map_map]
          rfl
        · rfl

/-- The map and the ring stay in step over every history. -/
theorem inStep_after (v : ℕ) (events : List Event) :
    InStep v (registered events) (after v events) := by
  have hrun : ∀ (ids : Finset ByteString) (e : EntrypointNode), InStep v ids e →
      InStep v (events.foldl registeredAfter ids) (events.foldl EntrypointNode.onEvent e) := by
    induction events with
    | nil => exact fun ids e h => h
    | cons event events ih => exact fun ids e h => ih _ _ (h.onEvent event)
  exact hrun ∅ _ ⟨by simp, nofun, rfl, ⟨List.Pairwise.nil, nofun⟩, nofun⟩

end Steps

/-- The node is registered and not known to be down. -/
def Usable (e : EntrypointNode) (state : NodeState) : Prop :=
  e.nodes state.config.id = some state ∧ state.health ≠ .kUnhealthy

/-- A key is routed to a usable node if there is one, to its owner if that is usable, and
never to a node that is not registered. -/
structure RoutesSoundly (e : EntrypointNode) (ids : Finset ByteString) (k : ByteString) : Prop where
  returned : ∀ state, e.resolveNode k = some state → state.config.id ∈ ids ∧ e.Usable state
  found : (∃ state, e.Usable state) → ∃ state, e.resolveNode k = some state
  owner : ∀ p state, IsNearest (2 ^ 32) (ConsistentHashRing.hash k) e.ring.ring p →
    e.nodes p.2 = some state → state.health ≠ .kUnhealthy → e.resolveNode k = some state

section Routing

variable {v : ℕ} {ids : Finset ByteString} {e : EntrypointNode} {k id : ByteString}
  {state : NodeState} {p : ℕ × ByteString}

theorem healthyNode_eq_some :
    e.healthyNode id = some state ↔ e.nodes id = some state ∧ state.health ≠ .kUnhealthy := by
  rw [healthyNode, Option.filter_eq_some_iff, decide_eq_true_eq]

theorem InStep.usable (h : InStep v ids e) (hstate : e.nodes id = some state)
    (hhealth : state.health ≠ .kUnhealthy) : state.config.id ∈ ids ∧ e.Usable state := by
  have hid := h.config hstate
  rw [Usable, hid]
  exact ⟨(h.nodes id).mpr ⟨state, hstate⟩, hstate, hhealth⟩

/-- Whatever is returned is registered and usable. -/
theorem InStep.returned (h : InStep v ids e) (hresolve : e.resolveNode k = some state) :
    state.config.id ∈ ids ∧ e.Usable state := by
  unfold resolveNode at hresolve
  dsimp only at hresolve
  split_ifs at hresolve with hempty
  cases howner : e.nodes (e.ring.getNode k) with
  | none => simp [howner] at hresolve
  | some owner =>
    rw [howner] at hresolve
    dsimp only at hresolve
    split_ifs at hresolve with hhealth
    · obtain ⟨id, -, hid⟩ := List.exists_of_findSome?_eq_some hresolve
      split_ifs at hid
      obtain ⟨hstate, husable⟩ := healthyNode_eq_some.mp hid
      exact h.usable hstate husable
    · cases hresolve
      exact h.usable howner hhealth

/-- A key whose owner has a name goes to the owner, or else to another usable node. -/
theorem InStep.found (h : InStep v ids e) (howns : ∀ id ∈ ids, ∃ p ∈ e.ring.ring, p.2 = id)
    (hp : IsNearest (2 ^ 32) (ConsistentHashRing.hash k) e.ring.ring p) (hname : p.2 ≠ [])
    (husable : e.Usable state) : ∃ state, e.resolveNode k = some state := by
  obtain ⟨owner, howner⟩ := (h.nodes p.2).mp (h.owners p hp.mem).1
  have hempty : p.2.isEmpty = false := by simpa using hname
  rw [resolveNode, getNode_eq h.ascending hp]
  rw [hempty, if_neg Bool.false_ne_true, howner]
  dsimp only
  split_ifs with hhealth
  · rw [← Option.isSome_iff_exists, List.findSome?_isSome_iff]
    obtain ⟨hstate, hnotDown⟩ := husable
    have hid : state.config.id ∈ ids := (h.nodes _).mpr ⟨state, hstate⟩
    obtain ⟨q, hq, hqid⟩ := howns _ hid
    have hother : state.config.id ≠ p.2 := by
      intro heq
      rw [heq, howner] at hstate
      cases hstate
      exact hnotDown hhealth
    refine ⟨state.config.id, mem_allNodes.mpr ⟨q, hq, hqid⟩, ?_⟩
    rw [if_neg hother, healthyNode_eq_some.mpr ⟨hstate, hnotDown⟩]
    rfl
  · exact ⟨owner, rfl⟩

theorem InStep.owner (h : InStep v ids e)
    (hp : IsNearest (2 ^ 32) (ConsistentHashRing.hash k) e.ring.ring p) (hname : p.2 ≠ [])
    (hstate : e.nodes p.2 = some state) (hhealth : state.health ≠ .kUnhealthy) :
    e.resolveNode k = some state := by
  have hempty : p.2.isEmpty = false := by simpa using hname
  rw [resolveNode, getNode_eq h.ascending hp]
  simp [hempty, hstate, hhealth]

/-- Every key is routed soundly exactly if no node has the empty id, or none is usable. -/
theorem InStep.routesSoundly_iff (h : InStep v ids e)
    (howns : ∀ id ∈ ids, ∃ p ∈ e.ring.ring, p.2 = id) :
    (∀ k, e.RoutesSoundly ids k) ↔ [] ∉ ids ∨ ¬ ∃ state, e.Usable state := by
  constructor
  · intro hsound
    by_contra! hcon
    obtain ⟨hnil, husable⟩ := hcon
    obtain ⟨p, hp, hname⟩ := howns [] hnil
    -- some key has the hash of a point of the node without a name
    obtain ⟨id, -, hkey⟩ := exists_nodeId (h.ascending.lt p hp)
    have hnearest : IsNearest (2 ^ 32) (ConsistentHashRing.hash (vnodeKey id 0)) e.ring.ring p := by
      refine ⟨hp, fun q _ => ?_⟩
      rw [hkey, distance_self]
      exact Nat.zero_le _
    obtain ⟨state, hstate⟩ := (hsound (vnodeKey id 0)).found husable
    rw [resolveNode, getNode_eq h.ascending hnearest, hname] at hstate
    cases hstate
  · intro hgood k
    refine ⟨fun state => h.returned, fun husable => ?_, fun p state hp hstate hhealth => ?_⟩
    · obtain ⟨state, husable⟩ := husable
      have hnil := hgood.resolve_right (not_not_intro ⟨state, husable⟩)
      have hid := (h.nodes state.config.id).mpr ⟨state, husable.1⟩
      obtain ⟨q, hq, -⟩ := howns _ hid
      obtain ⟨p, hp, -⟩ := getNode_nearest h.ascending (List.ne_nil_of_mem hq) k
      refine h.found howns hp (fun hname => hnil ?_) husable
      rw [← hname]
      exact (h.owners p hp.mem).1
    · have hnil := hgood.resolve_right (not_not_intro ⟨state, (h.usable hstate hhealth).2⟩)
      refine h.owner hp (fun hname => hnil ?_) hstate hhealth
      rw [← hname]
      exact (h.owners p hp.mem).1

end Routing

/-- After every history in which each registered node owns a point, routing is sound for every
key exactly if no node with the empty id is registered, or no node is usable. -/
theorem failover_sound_iff (v : ℕ) (events : List Event)
    (howns : ∀ id ∈ registered events, ∃ p ∈ (after v events).ring.ring, p.2 = id) :
    (∀ k, (after v events).RoutesSoundly (registered events) k) ↔
      [] ∉ registered events ∨ ¬ ∃ state, (after v events).Usable state :=
  (inStep_after v events).routesSoundly_iff howns

def firstDown : List Event :=
  [.configured firstNode, .added secondNode, .checked firstNode.id false 1]

theorem failover_sound_iff_firstDown :
    [] ∉ registered firstDown ∧ ∀ k, (after 1 firstDown).RoutesSoundly (registered firstDown) k := by
  have hnamed : [] ∉ registered firstDown := by decide +kernel
  exact ⟨hnamed, (failover_sound_iff 1 firstDown (by decide +kernel)).mpr (.inl hnamed)⟩

/-- The only node has the empty id, and no key is routed to it. -/
theorem failover_misses_nameless :
    let nameless : NodeConfig := { id := [], host := ascii "127.0.0.1", port := 7000 }
    let e := after 1 [.added nameless, .checked [] true 1]
    (e.nodes []).map NodeState.health = some .kHealthy ∧
      e.ring.getNode (ascii "orders") = [] ∧ e.ring.allNodes = [[]] ∧
      e.resolveNode (ascii "orders") = none := by
  decide +kernel

end CourseDb.EntrypointNode

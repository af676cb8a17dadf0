import CourseDb.Common.Text

/-! # Consistent hashing

Every node owns a number of points on a ring of 32-bit hashes, and a key belongs
to the owner of the first point at or after its hash.
-/

namespace CourseDb

namespace Murmur

def rotl32 (x r : UInt32) : UInt32 := (x <<< r) ||| (x >>> (32 - r))

def c1 : UInt32 := 0xcc9e2d51

def c2 : UInt32 := 0x1b873593

def word (b : Byte) : UInt32 := UInt32.ofNat b.val

def scramble (k : UInt32) : UInt32 := rotl32 (k * c1) 15 * c2

/-- The blocks of four bytes, and then the one to three bytes that are left. -/
def blocks : UInt32 → ByteString → UInt32
  | h, a :: b :: c :: d :: rest =>
    let k := word a ||| (word b <<< 8) ||| (word c <<< 16) ||| (word d <<< 24)
    blocks (rotl32 (h ^^^ scramble k) 13 * 5 + 0xe6546b64) rest
  | h, [a, b, c] => h ^^^ scramble ((word c <<< 16) ^^^ (word b <<< 8) ^^^ word a)
  | h, [a, b] => h ^^^ scramble ((word b <<< 8) ^^^ word a)
  | h, [a] => h ^^^ scramble (word a)
  | h, [] => h

def finalize (h : UInt32) : UInt32 :=
  let h := h ^^^ (h >>> 16)
  let h := h * 0x85ebca6b
  let h := h ^^^ (h >>> 13)
  let h := h * 0xc2b2ae35
  h ^^^ (h >>> 16)

/-- MurmurHash3 with 32-bit words. The source takes the length as an `int`, so keys are shorter
than 2^31 bytes. -/
def hash32 (key : ByteString) (seed : UInt32) : UInt32 :=
  finalize (blocks seed key ^^^ UInt32.ofNat key.length)

end Murmur

/-- The points of the ring in ascending order, with their owners. -/
structure ConsistentHashRing where
  virtualNodes : ℕ := 150
  ring : List (ℕ × ByteString) := []

namespace ConsistentHashRing

def hash (key : ByteString) : ℕ := (Murmur.hash32 key 0x9747b28c).toNat

/-- `ring_[point] = owner` on an ordered map. -/
def insertPoint (point : ℕ) (owner : ByteString) : List (ℕ × ByteString) → List (ℕ × ByteString)
  | [] => [(point, owner)]
  | p :: rest =>
    if point < p.1 then (point, owner) :: p :: rest
    else if point = p.1 then (point, owner) :: rest
    else p :: insertPoint point owner rest

/-- The key of the `i`-th point of a node. -/
def vnodeKey (nodeId : ByteString) (i : ℕ) : ByteString := nodeId ++ ascii "#" ++ ascii (toString i)

def addNode (nodeId : ByteString) (r : ConsistentHashRing) : ConsistentHashRing :=
  let add (ring : List (ℕ × ByteString)) (i : ℕ) :=
    insertPoint (hash (vnodeKey nodeId i)) nodeId ring
  { r with ring := (List.range r.virtualNodes).foldl add r.ring }

def removeNode (nodeId : ByteString) (r : ConsistentHashRing) : ConsistentHashRing :=
  let remove (ring : List (ℕ × ByteString)) (i : ℕ) :=
    ring.filter fun p => p.1 ≠ hash (vnodeKey nodeId i)
  { r with ring := (List.range r.virtualNodes).foldl remove r.ring }

/-- The source returns the empty string for an empty ring. -/
def getNode (key : ByteString) (r : ConsistentHashRing) : ByteString :=
  match r.ring.find? (fun p => hash key ≤ p.1), r.ring with
  | some p, _ => p.2
  | none, p :: _ => p.2
  | none, [] => []

/-- The owners, each once, in the order of a `std::set`. -/
def allNodes (r : ConsistentHashRing) : List ByteString :=
  (r.ring.map Prod.snd).dedup.mergeSort (fun a b => decide (a ≤ b))

end ConsistentHashRing

end CourseDb

import CourseDb.Index.TreeMap

/-! # The index without its pages

A key index keeps the map of a B*-tree and the settings its metadata record.
It refuses the keys that the tree refuses, so that its answers are those of the
tree on every key.
-/

namespace CourseDb

open Fallible (bind_error ofExcept_bind read_bind)

structure KeyIndex where
  cfg : BStarTree.Config
  keys : BStarTree.KeyMap

namespace KeyIndex

abbrev Action (α : Type) := Fallible Status KeyIndex α

def empty (cfg : BStarTree.Config) : KeyIndex := { cfg, keys := fun _ => none }

/-- `ValidateKeyType`. -/
def validateKeyType (cfg : BStarTree.Config) (key : Value) : Except Status Unit :=
  if key.isNull then
    .error ⟨.kInvalidArgument, "NULL keys are not supported in BStarTree"⟩
  else if key.type ≠ cfg.keyType then
    .error ⟨.kInvalidArgument, "Key type does not match index key type"⟩
  else if (KeyEncoder.encode key).length > cfg.maxKeyPayloadBytes then
    .error ⟨.kInvalidArgument, "Encoded index key exceeds configured maximum payload size"⟩
  else
    .ok ()

def insert (key : Value) (rid : ℕ) : Action Unit := do
  let index ← Fallible.read
  Fallible.ofExcept (validateKeyType index.cfg key)
  match index.keys key with
  | some _ => Fallible.fail BStarTree.keyAlreadyExists
  | none =>
    Fallible.modify fun index => { index with keys := Function.update index.keys key (some rid) }

def delete (key : Value) : Action Unit := do
  let index ← Fallible.read
  Fallible.ofExcept (validateKeyType index.cfg key)
  match index.keys key with
  | none => Fallible.fail BStarTree.keyNotFound
  | some _ =>
    Fallible.modify fun index => { index with keys := Function.update index.keys key none }

def find (key : Value) : Action (Option ℕ) := do
  let index ← Fallible.read
  Fallible.ofExcept (validateKeyType index.cfg key)
  return index.keys key

/-- What `LoadMetadata` compares when a tree is opened on an existing file. -/
def checkMetadata (stored cfg : BStarTree.Config) : Except Status Unit :=
  if stored.keyType ≠ cfg.keyType then
    .error ⟨.kInvalidArgument, "Index key type does not match tree metadata"⟩
  else if stored.minDegree ≠ cfg.minDegree then
    .error ⟨.kInvalidArgument, "Index min_degree does not match tree metadata"⟩
  else if stored.maxKeyPayloadBytes ≠ cfg.maxKeyPayloadBytes then
    .error ⟨.kInvalidArgument, "Index key payload policy does not match tree metadata"⟩
  else
    .ok ()

/-- A deletion that fails leaves the index as it is; one that succeeds removes the key. -/
theorem delete_cases (key : Value) (x : KeyIndex) :
    (∃ s, delete key x = (.error s, x)) ∨
      x.keys key ≠ none ∧
        delete key x = (.ok (), { x with keys := Function.update x.keys key none }) := by
  unfold delete
  rw [read_bind]
  rcases validateKeyType x.cfg key with s | ⟨⟩
  · exact .inl ⟨s, rfl⟩
  · rcases hkey : x.keys key with _ | rid
    · exact .inl ⟨_, rfl⟩
    · exact .inr ⟨by simp, rfl⟩

section Tree

open BStarTree (Op Answer MapSpec Refines)

variable {s : BStarTree} {index : KeyIndex} {op : Op} {key : Value} {e : Status}

/-- What a caller of the tree sees of a call of the index. -/
def reply {α : Type} (f : α → Answer) (r : Except Status α × KeyIndex) : Answer × KeyIndex :=
  (BStarTree.answer f (r.1.mapError .status), r.2)

def step (index : KeyIndex) : Op → Answer × KeyIndex
  | .insert key rid => reply (fun _ => .ok) (insert key rid index)
  | .delete key => reply (fun _ => .ok) (delete key index)
  | .find key => reply .found (find key index)
  | .reopen => (.ok, index)

def keyOf : Op → Option Value
  | .insert key _ | .delete key | .find key => some key
  | .reopen => none

theorem validateKeyType_tree (key : Value) (s : BStarTree) :
    BStarTree.validateKeyType key s = ((validateKeyType s.cfg key).mapError .status, s) := by
  unfold BStarTree.validateKeyType validateKeyType
  rw [read_bind]
  split_ifs <;> rfl

/-- A refused key ends a call of the tree before it looks at a page. -/
theorem step_refused (hrep : Refines index.cfg s index.keys) (hkey : keyOf op = some key)
    (he : validateKeyType index.cfg key = .error e) :
    BStarTree.step s op = (.error (.status e), s) ∧
      step index op = (.error (.status e), index) := by
  obtain ⟨E, hE, -⟩ := hrep
  obtain ⟨m, M, hs⟩ := hE.holds
  have htree : BStarTree.validateKeyType key s = (.error (.status e), s) := by
    rw [validateKeyType_tree, hs.cfg_eq, he]
    rfl
  have hindex : Fallible.ofExcept (validateKeyType index.cfg key) index = (.error e, index) := by
    rw [he]
    rfl
  cases op <;> cases hkey <;>
    simp [BStarTree.step, step, BStarTree.insert, BStarTree.delete, BStarTree.find, insert, delete,
      find, read_bind, hs.isOpen, bind_error htree, bind_error hindex, reply, BStarTree.answer,
      Except.mapError]

theorem step_of_spec {out : Answer} {a : BStarTree.KeyMap}
    (hvalid : ∀ key, keyOf op = some key → validateKeyType index.cfg key = .ok ())
    (hspec : MapSpec index.keys op out a) : step index op = (out, { index with keys := a }) := by
  cases op with
  | insert key rid =>
    rw [step, insert, read_bind, ofExcept_bind (hvalid key rfl)]
    cases hkey : index.keys key <;> simp only [MapSpec, hkey] at hspec <;>
      obtain ⟨rfl, rfl⟩ := hspec <;> rfl
  | delete key =>
    rw [step, delete, read_bind, ofExcept_bind (hvalid key rfl)]
    cases hkey : index.keys key <;> simp only [MapSpec, hkey] at hspec <;>
      obtain ⟨rfl, rfl⟩ := hspec <;> rfl
  | find key =>
    obtain ⟨rfl, rfl⟩ := hspec
    rw [step, find, read_bind, ofExcept_bind (hvalid key rfl)]
    rfl
  | reopen =>
    obtain ⟨rfl, rfl⟩ := hspec
    rfl

theorem accepted (hmax : index.cfg.maxKeyPayloadBytes < 2 ^ 32)
    (hvalid : validateKeyType index.cfg key = .ok ()) :
    BStarTree.Accepted index.cfg key ∧ BStarTree.Short key := by
  constructor
  · rw [BStarTree.Accepted, validateKeyType_tree]
    exact congrArg (Except.mapError BStarTree.TreeError.status) hvalid
  · unfold validateKeyType at hvalid
    split_ifs at hvalid with hnull htype hlength
    exact lt_of_le_of_lt (Nat.not_lt.mp hlength) hmax

/-- A device that works, and row ids of 64 bits. -/
def Faultless (_ : KeyIndex) (op : Op) (out : Answer) : Prop :=
  out ≠ .error BStarTree.deviceFull ∧ ∀ key rid, op = .insert key rid → rid < 2 ^ 64

theorem step_simulates (hv : index.cfg.Valid) (hsize : index.cfg.pageSize < 2 ^ 63)
    (hmax : index.cfg.maxKeyPayloadBytes < 2 ^ 32) (hrep : Refines index.cfg s index.keys)
    (hout : Faultless index op (BStarTree.step s op).1) :
    ∃ a, step index op = ((BStarTree.step s op).1, { index with keys := a }) ∧
      Refines index.cfg (BStarTree.step s op).2 a := by
  by_cases hvalid : ∀ key, keyOf op = some key → validateKeyType index.cfg key = .ok ()
  · have haccepted := fun key hkey => accepted hmax (hvalid key hkey)
    have hassume : BStarTree.Assumption index.cfg index.keys op (BStarTree.step s op).1 := by
      refine ⟨hout.1, ?_⟩
      cases op with
      | insert key rid => exact ⟨(haccepted key rfl).1, (haccepted key rfl).2, hout.2 key rid rfl⟩
      | delete key => exact haccepted key rfl
      | find key => exact haccepted key rfl
      | reopen => trivial
    obtain ⟨a, hspec, href⟩ := BStarTree.step_refines hv hrep hsize op hassume
    exact ⟨a, step_of_spec hvalid hspec, href⟩
  · push Not at hvalid
    obtain ⟨key, hkey, hne⟩ := hvalid
    rcases he : validateKeyType index.cfg key with e | ⟨⟩
    · obtain ⟨htree, hindex⟩ := step_refused hrep hkey he
      rw [htree]
      exact ⟨index.keys, hindex, hrep⟩
    · exact absurd he hne

/-- Every run of a tree on a new file is a run of the index without pages. Whatever was
called before, a refused key leaves the pages as they are. -/
theorem tree_answers_as_index {cfg : BStarTree.Config} (hv : cfg.Valid)
    (hmax : cfg.maxKeyPayloadBytes < 2 ^ 32)
    (hopen : BStarTree.openTree (BStarTree.new cfg none) = (.ok (), s)) (ops : List Op) :
    Conforms Faultless (fun index op out index' => step index op = (out, index')) (empty cfg)
        (trace BStarTree.step s ops) ∧
      (Along BStarTree.step (fun s op => Faultless (empty cfg) op (BStarTree.step s op).1) s ops →
        ∀ op key e, keyOf op = some key → validateKeyType cfg key = .error e →
          BStarTree.step (finalState BStarTree.step s ops) op =
            (.error (.status e), finalState BStarTree.step s ops)) := by
  obtain ⟨hsize, rfl⟩ := BStarTree.openTree_initial hv hopen
  constructor
  · apply conforms_of_simulation (R := fun s index => index.cfg = cfg ∧ Refines cfg s index.keys)
    · rintro s index op ⟨rfl, hrep⟩ hout
      obtain ⟨a, hstep, href⟩ := step_simulates hv hsize hmax hrep hout
      exact ⟨_, hstep, rfl, href⟩
    · exact ⟨rfl, [], BStarTree.initial_represents cfg, rfl⟩
  · intro hops op key e hkey he
    have hreached := hops.invariant
      (I := fun s => ∃ index : KeyIndex, index.cfg = cfg ∧ Refines cfg s index.keys)
      (fun s op hs hout => by
        obtain ⟨index, rfl, href⟩ := hs
        obtain ⟨a, -, href'⟩ := step_simulates hv hsize hmax href hout
        exact ⟨⟨_, a⟩, rfl, href'⟩) ⟨empty cfg, rfl, [], BStarTree.initial_represents cfg, rfl⟩
    obtain ⟨index, rfl, href⟩ := hreached
    exact (step_refused href hkey he).1

theorem tree_answers_as_index_int :
    let start := BStarTree.initial BStarTree.smallConfig
    let after := finalState BStarTree.step start [.insert (.int 5) 1]
    Conforms Faultless (fun index op out index' => step index op = (out, index'))
        (empty BStarTree.smallConfig) (trace BStarTree.step start
          [.insert (.int 5) 1, .insert .null 2, .find (.int 5)]) ∧
      BStarTree.step after (.insert .null 2) =
        (.error (.status ⟨.kInvalidArgument, "NULL keys are not supported in BStarTree"⟩), after) := by
  have hruns := tree_answers_as_index BStarTree.smallConfig_valid (by decide)
    BStarTree.smallConfig_fresh.opens
  refine ⟨(hruns _).1, (hruns [.insert (.int 5) 1]).2 ⟨⟨by decide +kernel, ?_⟩, trivial⟩
    _ .null _ rfl rfl⟩
  rintro _ _ ⟨⟩
  decide

end Tree

end KeyIndex

end CourseDb

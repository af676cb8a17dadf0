import CourseDb.Runtime.EngineState

/-! # The index manager

Open indexes are found by their names. An index that is open under a name is
used for every index of that name, whatever table and file it belongs to.
-/

namespace CourseDb.IndexManager

open StorageNodeEngine (Action)

/-- `BStarTree::kDefaultMaxVariableKeyPayloadBytes`. -/
def maxVariableKeyPayloadBytes : ℕ := 256

def validateDescriptor (desc : IndexDescriptor) : Except Status Unit :=
  if desc.name.isEmpty then
    .error ⟨.kInvalidArgument, "name must not be empty"⟩
  else if desc.tableName.isEmpty then
    .error ⟨.kInvalidArgument, "table_name must not be empty"⟩
  else if desc.columnName.isEmpty then
    .error ⟨.kInvalidArgument, "column_name must not be empty"⟩
  else if desc.filePath.isEmpty then
    .error ⟨.kInvalidArgument, "file_path must not be empty"⟩
  else
    .ok ()

def treeConfig (pageSize : ℕ) (keyType : ValueType) : Except Status BStarTree.Config := do
  let maxKeyPayloadBytes ←
    BStarTree.resolveMaxEncodedKeySize keyType maxVariableKeyPayloadBytes
  let minDegree ← BStarTree.computeMinDegreeForPage pageSize maxKeyPayloadBytes
  return { keyType, pageSize, minDegree, maxKeyPayloadBytes }

def registerIndex (desc : IndexDescriptor) (keyType : ValueType) (createIfMissing : Bool) :
    Action Unit := do
  Fallible.ofExcept (validateDescriptor desc)
  let e ← Fallible.read
  if (e.openedIndexes desc.name).isSome then
    return ()
  else if !createIfMissing && !e.disk.hasPath desc.filePath then
    Fallible.fail ⟨.kNotFound, "index file does not exist"⟩
  else
    let cfg ← Fallible.ofExcept (treeConfig e.config.pageSize keyType)
    let file ← StorageNodeEngine.openIndexFile desc.filePath cfg
    Fallible.modify fun e =>
      { e with openedIndexes := Function.update e.openedIndexes desc.name (some file) }

def createIndex (desc : IndexDescriptor) (keyType : ValueType) : Action Unit :=
  registerIndex desc keyType true

def openIndex (desc : IndexDescriptor) (keyType : ValueType) : Action Unit :=
  registerIndex desc keyType false

def indexNotOpen : Status := ⟨.kNotFound, "index is not open"⟩

def getOpenedIndex (indexName : ByteString) : Action ℕ := do
  let e ← Fallible.read
  match e.openedIndexes indexName with
  | none => Fallible.fail indexNotOpen
  | some file => return file

def insert (indexName : ByteString) (key : Value) (rid : ℕ) : Action Unit := do
  let file ← getOpenedIndex indexName
  StorageNodeEngine.onIndex file (KeyIndex.insert key rid)

def delete (indexName : ByteString) (key : Value) : Action Unit := do
  let file ← getOpenedIndex indexName
  StorageNodeEngine.onIndex file (KeyIndex.delete key)

def find (indexName : ByteString) (key : Value) : Action (Option ℕ) := do
  let file ← getOpenedIndex indexName
  StorageNodeEngine.onIndex file (KeyIndex.find key)

end CourseDb.IndexManager

import CourseDb.Index.TreePage
import CourseDb.Storage.PageManager

/-! # The B*-tree

Insertion, deletion and lookup of the index, translated function by function.
A search path is kept with its deepest link first. A function of the source
that calls back into its caller for the parent node returns the work left to
do above instead, so that every recursion follows the search path.
-/

namespace CourseDb

open Fallible (fail)

structure BStarTree where
  cfg : BStarTree.Config
  pageManager : PageManager
  isOpen : Bool
  metadata : BStarTree.TreeMetadata

namespace BStarTree

/-- How a call can fail: with a status, or by never returning. -/
inductive TreeError where
  | status (s : Status)
  | noTermination
deriving DecidableEq

abbrev Action (α : Type) := Fallible TreeError BStarTree α

structure SearchPathEntry where
  pageId : ℕ
  childIndex : ℕ

section Pages

variable {α : Type}

def refuse (code : StatusCode) (message : String) : Action α :=
  fail (.status ⟨code, message⟩)

def parsed (r : Except Status α) : Action α := Fallible.ofExcept (r.mapError .status)

def onPages (x : Fallible Status PageManager α) : Action α := fun s =>
  ((x s.pageManager).1.mapError .status, { s with pageManager := (x s.pageManager).2 })

def readPage (id : ℕ) : Action ByteString := onPages (PageManager.readPage id)

def writePage (id : ℕ) (data : ByteString) : Action Unit := onPages (PageManager.writePage id data)

def allocateNodePage : Action ℕ := onPages PageManager.allocatePage

def readParsed (parse : Config → ByteString → Except Status α) (id : ℕ) : Action α := do
  let page ← readPage id
  let s ← Fallible.read
  parsed (parse s.cfg page)

/-- Read two pages, then parse both. -/
def readBoth (parse : Config → ByteString → Except Status α) (left right : ℕ) :
    Action (α × α) := do
  let leftPage ← readPage left
  let rightPage ← readPage right
  let s ← Fallible.read
  let leftNode ← parsed (parse s.cfg leftPage)
  let rightNode ← parsed (parse s.cfg rightPage)
  return (leftNode, rightNode)

def writeBuilt (build : Config → Except Status ByteString) (id : ℕ) : Action Unit := do
  let s ← Fallible.read
  let page ← parsed (build s.cfg)
  writePage id page

def readLeaf : ℕ → Action (NodeHeader × List LeafEntry) := readParsed parseLeafPage

def readInternal : ℕ → Action (NodeHeader × InternalNodeData) := readParsed parseInternalPage

def readNode : ℕ → Action Node := readParsed parseNode

def readLeaves := readBoth parseLeafPage

def readInternals := readBoth parseInternalPage

def writeLeaf (id : ℕ) (header : NodeHeader) (entries : List LeafEntry) : Action Unit :=
  writeBuilt (fun cfg => buildLeafPage cfg header entries) id

def writeInternal (id : ℕ) (header : NodeHeader) (node : InternalNodeData) : Action Unit :=
  writeBuilt (fun cfg => buildInternalPage cfg header node) id

def metadataTooLarge : Status := ⟨.kInternalError, "Metadata page does not fit into page size"⟩

def writeMetadata : Action Unit := do
  let s ← Fallible.read
  let bytes := serializeMetadata s.cfg s.metadata
  if bytes.length > s.cfg.pageSize then
    fail (.status metadataTooLarge)
  else
    writePage 0 (fillPage s.cfg bytes)

def setMetadata (f : TreeMetadata → TreeMetadata) : Action Unit :=
  Fallible.modify fun s => { s with metadata := f s.metadata }

/-- Assign fields of the metadata, then write its page. -/
def saveMetadata (f : TreeMetadata → TreeMetadata) : Action Unit := do
  setMetadata f
  writeMetadata

end Pages

def maxKeysPerNode (cfg : Config) : ℕ := 2 * cfg.minDegree - 1

def minKeysPerNonRootNode (cfg : Config) : ℕ := cfg.minDegree - 1

def Node.isUnderfull (cfg : Config) : Node → Bool
  | .leaf header entries => !header.isRoot && entries.length < minKeysPerNonRootNode cfg
  | .internal header node =>
    !header.isRoot && node.separatorKeys.length < minKeysPerNonRootNode cfg

/-- `std::lower_bound` over the entries of a leaf, which are sorted. -/
def findEntryPosition (entries : List LeafEntry) (key : Value) : ℕ :=
  (entries.takeWhile fun entry => entry.key.less key).length

def chooseChildIndex (node : InternalNodeData) (key : Value) : ℕ :=
  (node.separatorKeys.takeWhile fun separator => !key.less separator).length

/-- `entries.front().key`; the source never asks for it on an empty list. -/
def frontKey : List LeafEntry → Value
  | [] => .null
  | entry :: _ => entry.key

def validateKeyType (key : Value) : Action Unit := do
  let s ← Fallible.read
  if key.isNull then
    refuse .kInvalidArgument "NULL keys are not supported in BStarTree"
  else if key.type ≠ s.cfg.keyType then
    refuse .kInvalidArgument "Key type does not match index key type"
  else if (KeyEncoder.encode key).length > s.cfg.maxKeyPayloadBytes then
    refuse .kInvalidArgument "Encoded index key exceeds configured maximum payload size"
  else
    return ()

/-- The loop of `FindPathToLeaf`. -/
def descend (key : Value) :
    ℕ → ℕ → List SearchPathEntry → Action (List SearchPathEntry × ℕ × Option ℕ)
  | 0, _, _ => fail .noTermination
  | fuel + 1, current, path => do
    match ← readNode current with
    | .leaf _ entries =>
      let existing := entries[findEntryPosition entries key]?.filter fun entry => entry.key = key
      return (path, current, existing.map LeafEntry.rid)
    | .internal _ node =>
      let childIndex := chooseChildIndex node key
      descend key fuel (node.childPageIds.getD childIndex invalidPageId)
        (⟨current, childIndex⟩ :: path)

/-- The loop reads a page at each round; once it has read more pages than the
file has, it has come back to one of them and goes round for ever. -/
def findPathToLeaf (key : Value) : Action (List SearchPathEntry × ℕ × Option ℕ) := do
  let s ← Fallible.read
  if s.metadata.rootPageId = invalidPageId then
    return ([], invalidPageId, none)
  else
    descend key (s.pageManager.pages.length + 1) s.metadata.rootPageId []

def InternalNodeData.setSeparator (node : InternalNodeData) (index : ℕ) (key : Value) :
    InternalNodeData :=
  { node with separatorKeys := node.separatorKeys.set index key }

def updateParentSeparatorAfterChildChange (replacement : Value) :
    List SearchPathEntry → Action Unit
  | [] => return ()
  | link :: path =>
    if link.childIndex = 0 then
      updateParentSeparatorAfterChildChange replacement path
    else do
      let (header, node) ← readInternal link.pageId
      writeInternal link.pageId header (node.setSeparator (link.childIndex - 1) replacement)

/-- The body of `rewrite_child_parent`. Parsing the page fills the header a
second time, so the assigned parent is lost. -/
def rewriteChildParent (child parent : ℕ) : Action Unit := do
  let page ← readPage child
  let s ← Fallible.read
  let header ← parsed (deserializeNodeHeader page)
  let header := { header with parentPageId := parent }
  match header.type with
  | .kLeaf =>
    let (header, leaf) ← parsed (parseLeafPage s.cfg page)
    writeLeaf child header leaf
  | .kInternal =>
    let (header, node) ← parsed (parseInternalPage s.cfg page)
    writeInternal child header node

def rewriteChildrenParent (parent : ℕ) : List ℕ → Action Unit
  | [] => return ()
  | child :: children => do
    rewriteChildParent child parent
    rewriteChildrenParent parent children

/-- One round of the loop over split positions: the best so far, and a candidate. -/
def closer (fits : ℕ → Bool) (distance : ℕ → ℕ) (best : Option ℕ) (candidate : ℕ) : Option ℕ :=
  if fits candidate then
    match best with
    | none => some candidate
    | some b => if distance candidate < distance b then some candidate else some b
  else
    best

/-- The first of the candidates that fit at which the distance is least. -/
def nearest (fits : ℕ → Bool) (distance : ℕ → ℕ) (candidates : List ℕ) : Option ℕ :=
  candidates.foldl (closer fits distance) none

def distance (left right : ℕ) : ℕ := if left > right then left - right else right - left

def chooseBalancedSplit (total : ℕ) (fits : ℕ → ℕ → Bool) : Option ℕ :=
  nearest (fun split => fits split (total - split)) (fun split => distance split (total - split))
    (List.range' 1 (total - 1))

/-- Whether both counts are allowed in a node that is not the root. -/
def balanced (cfg : Config) (left right : ℕ) : Bool :=
  minKeysPerNonRootNode cfg ≤ left && left ≤ maxKeysPerNode cfg &&
    minKeysPerNonRootNode cfg ≤ right && right ≤ maxKeysPerNode cfg

/-- The writes of `RedistributeLeafWithRightSibling`, once the split is chosen. -/
def writeSharedLeaves (path : List SearchPathEntry) (link : SearchPathEntry)
    (parentHeader : NodeHeader) (parent : InternalNodeData) (leafPage rightPage : ℕ)
    (currentHeader rightHeader : NodeHeader) (newLeft newRight : List LeafEntry) :
    Action Unit := do
  writeLeaf leafPage { currentHeader with nextLeafPageId := rightPage } newLeft
  writeLeaf rightPage rightHeader newRight
  writeInternal link.pageId parentHeader (parent.setSeparator link.childIndex (frontKey newRight))
  if link.childIndex = 0 ∧ !newLeft.isEmpty then
    updateParentSeparatorAfterChildChange (frontKey newLeft) path

def redistributeLeafWithRightSibling (leafPage : ℕ) (path : List SearchPathEntry)
    (expanded : List LeafEntry) : Action Bool := do
  match path with
  | [] => return false
  | link :: _ =>
    let (parentHeader, parent) ← readInternal link.pageId
    match parent.childPageIds[link.childIndex + 1]? with
    | none => return false
    | some rightPage =>
      let ((currentHeader, _), (rightHeader, right)) ← readLeaves leafPage rightPage
      let s ← Fallible.read
      let combined := expanded ++ right
      let splitIndex := chooseBalancedSplit combined.length fun leftCount rightCount =>
        balanced s.cfg leftCount rightCount &&
          (buildLeafPage s.cfg currentHeader (combined.take leftCount)).isOk &&
          (buildLeafPage s.cfg rightHeader (combined.drop leftCount)).isOk
      match splitIndex with
      | none => return false
      | some split =>
        writeSharedLeaves path link parentHeader parent leafPage rightPage currentHeader
          rightHeader (combined.take split) (combined.drop split)
        return true

/-- The separators and children before, and those after, the separator `middle`. -/
def InternalNodeData.splitAt (node : InternalNodeData) (middle : ℕ) :
    InternalNodeData × InternalNodeData :=
  ({ separatorKeys := node.separatorKeys.take middle
     childPageIds := node.childPageIds.take (middle + 1) },
   { separatorKeys := node.separatorKeys.drop (middle + 1)
     childPageIds := node.childPageIds.drop (middle + 1) })

/-- Two siblings with the parent's separator between them. -/
def InternalNodeData.join (left : InternalNodeData) (separator : Value)
    (right : InternalNodeData) : InternalNodeData :=
  { separatorKeys := left.separatorKeys ++ separator :: right.separatorKeys
    childPageIds := left.childPageIds ++ right.childPageIds }

/-- The writes of `RedistributeInternalWithRightSibling`, once the middle is chosen. -/
def writeSharedInternals (link : SearchPathEntry) (parentHeader : NodeHeader)
    (parent : InternalNodeData) (internalPage rightPage : ℕ)
    (currentHeader rightHeader : NodeHeader) (newLeft newRight : InternalNodeData)
    (separator : Value) : Action Unit := do
  writeInternal internalPage currentHeader newLeft
  writeInternal rightPage rightHeader newRight
  writeInternal link.pageId parentHeader (parent.setSeparator link.childIndex separator)
  rewriteChildrenParent internalPage newLeft.childPageIds
  rewriteChildrenParent rightPage newRight.childPageIds

def redistributeInternalWithRightSibling (internalPage : ℕ) (path : List SearchPathEntry)
    (expanded : InternalNodeData) : Action Bool := do
  match path with
  | [] => return false
  | link :: _ =>
    let (parentHeader, parent) ← readInternal link.pageId
    match parent.childPageIds[link.childIndex + 1]? with
    | none => return false
    | some rightPage =>
      let ((currentHeader, _), (rightHeader, right)) ← readInternals internalPage rightPage
      let s ← Fallible.read
      let all := expanded.join (parent.separatorKeys.getD link.childIndex .null) right
      let total := all.separatorKeys.length
      let bestMiddle := nearest
        (fun middle =>
          balanced s.cfg middle (total - middle - 1) &&
            (buildInternalPage s.cfg currentHeader (all.splitAt middle).1).isOk &&
            (buildInternalPage s.cfg rightHeader (all.splitAt middle).2).isOk)
        (fun middle => distance middle (total - middle - 1))
        (List.range' (minKeysPerNonRootNode s.cfg) (total - minKeysPerNonRootNode s.cfg))
      match bestMiddle with
      | none => return false
      | some middle =>
        writeSharedInternals link parentHeader parent internalPage rightPage currentHeader
          rightHeader (all.splitAt middle).1 (all.splitAt middle).2
          (all.separatorKeys.getD middle .null)
        return true

/-- A fresh root above two nodes; the caller has set the metadata's other fields. -/
def writeRoot (rootPage left : ℕ) (separator : Value) (right : ℕ) : Action Unit :=
  writeInternal rootPage
    { type := .kInternal, keyCount := 0, parentPageId := invalidPageId,
      nextLeafPageId := invalidPageId, isRoot := true }
    { separatorKeys := [separator], childPageIds := [left, right] }

/-- Write both halves of a split node, then their children again. -/
def writeSplitInternals (internalPage rightPage : ℕ) (header : NodeHeader)
    (left right : InternalNodeData) : Action Unit := do
  writeInternal internalPage header left
  writeInternal rightPage header right
  rewriteChildrenParent internalPage left.childPageIds
  rewriteChildrenParent rightPage right.childPageIds

/-- `SplitInternal` up to the call for the parent: without a parent it makes a
new root, otherwise it returns what the parent has to take in. -/
def splitInternal (internalPage : ℕ) (path : List SearchPathEntry) (expanded : InternalNodeData) :
    Action (Option (Value × ℕ)) := do
  let s ← Fallible.read
  if expanded.separatorKeys.length ≠ maxKeysPerNode s.cfg + 1 then
    refuse .kInternalError "Internal split requires exactly max_keys + 1 separator keys"
  else
    let (currentHeader, _) ← readInternal internalPage
    let middle := s.cfg.minDegree - 1
    let promoted := expanded.separatorKeys.getD middle .null
    let (left, right) := expanded.splitAt middle
    if left.childPageIds.isEmpty || right.childPageIds.isEmpty then
      refuse .kInternalError "Split produced an invalid internal node"
    else
      let rightPage ← allocateNodePage
      match path with
      | [] =>
        let rootPage ← allocateNodePage
        let header := { currentHeader with
          isRoot := false, parentPageId := rootPage, nextLeafPageId := invalidPageId }
        writeSplitInternals internalPage rightPage header left right
        writeRoot rootPage internalPage promoted rightPage
        saveMetadata fun m =>
          { m with rootPageId := rootPage, treeHeight := (m.treeHeight + 1) % 2 ^ 64 }
        return none
      | link :: _ =>
        let header := { currentHeader with
          isRoot := false, parentPageId := link.pageId, nextLeafPageId := invalidPageId }
        writeSplitInternals internalPage rightPage header left right
        return some (promoted, rightPage)

/-- The node with a separator and the child to its right put in. -/
def InternalNodeData.insertChild (node : InternalNodeData) (leftChildIndex : ℕ)
    (separator : Value) (rightChild : ℕ) : InternalNodeData :=
  { separatorKeys := node.separatorKeys.insertIdx leftChildIndex separator
    childPageIds := node.childPageIds.insertIdx (leftChildIndex + 1) rightChild }

/-- `InsertIntoInternal` up to the call for the parent. -/
def insertIntoInternalNode (internalPage : ℕ) (path : List SearchPathEntry) (leftChildIndex : ℕ)
    (separator : Value) (rightChild : ℕ) : Action (Option (Value × ℕ)) := do
  let s ← Fallible.read
  let (header, node) ← readInternal internalPage
  let expanded := node.insertChild leftChildIndex separator rightChild
  if expanded.separatorKeys.length ≤ maxKeysPerNode s.cfg then
    writeInternal internalPage header expanded
    rewriteChildParent rightChild internalPage
    return none
  else if ← redistributeInternalWithRightSibling internalPage path expanded then
    return none
  else
    splitInternal internalPage path expanded

def insertIntoInternal (internalPage : ℕ) :
    List SearchPathEntry → ℕ → Value → ℕ → Action Unit
  | [], leftChildIndex, separator, rightChild => do
    let _ ← insertIntoInternalNode internalPage [] leftChildIndex separator rightChild
  | link :: path, leftChildIndex, separator, rightChild => do
    match ← insertIntoInternalNode internalPage (link :: path) leftChildIndex separator
      rightChild with
    | none => return ()
    | some (promoted, rightPage) =>
      insertIntoInternal link.pageId path link.childIndex promoted rightPage

/-- Write both halves of a split leaf and link them. -/
def writeSplitLeaves (leafPage rightPage : ℕ) (header : NodeHeader) (left right : List LeafEntry) :
    Action Unit := do
  writeLeaf leafPage { header with nextLeafPageId := rightPage } left
  writeLeaf rightPage header right

def splitLeaf (leafPage : ℕ) (path : List SearchPathEntry) (expanded : List LeafEntry) :
    Action Unit := do
  let s ← Fallible.read
  if expanded.length ≠ maxKeysPerNode s.cfg + 1 then
    refuse .kInternalError "Leaf split requires exactly max_keys + 1 entries"
  else
    let (currentHeader, _) ← readLeaf leafPage
    let left := expanded.take s.cfg.minDegree
    let right := expanded.drop s.cfg.minDegree
    if left.isEmpty || right.isEmpty then
      refuse .kInternalError "Split produced an empty leaf"
    else
      let rightPage ← allocateNodePage
      match path with
      | [] =>
        let rootPage ← allocateNodePage
        let header := { currentHeader with isRoot := false, parentPageId := rootPage }
        writeSplitLeaves leafPage rightPage header left right
        writeRoot rootPage leafPage (frontKey right) rightPage
        saveMetadata fun m =>
          { m with
            rootPageId := rootPage
            firstLeafPageId := leafPage
            treeHeight := (m.treeHeight + 1) % 2 ^ 64 }
      | link :: path =>
        let header := { currentHeader with isRoot := false, parentPageId := link.pageId }
        writeSplitLeaves leafPage rightPage header left right
        insertIntoInternal link.pageId path link.childIndex (frontKey right) rightPage

def insertIntoLeaf (leafPage : ℕ) (path : List SearchPathEntry) (key : Value) (rid : ℕ) :
    Action Unit := do
  let s ← Fallible.read
  let (header, entries) ← readLeaf leafPage
  let pos := findEntryPosition entries key
  let expanded := entries.insertIdx pos ⟨key, rid⟩
  if expanded.length ≤ maxKeysPerNode s.cfg then
    writeLeaf leafPage header expanded
    if pos = 0 then
      updateParentSeparatorAfterChildChange (frontKey expanded) path
  else if ← redistributeLeafWithRightSibling leafPage path expanded then
    return ()
  else
    splitLeaf leafPage path expanded

/-- What a merge has done, and whether the parent has become too small by it. -/
inductive MergeOutcome where
  | notMerged
  | merged
  | parentUnderfull

/-- The parent without a separator and the child to its right. -/
def InternalNodeData.eraseChild (node : InternalNodeData) (childIndex : ℕ) : InternalNodeData :=
  { separatorKeys := node.separatorKeys.eraseIdx childIndex
    childPageIds := node.childPageIds.eraseIdx (childIndex + 1) }

/-- The end of a merge that leaves the parent in place. -/
def shrinkParent (parentPage : ℕ) (parentHeader : NodeHeader) (parent : InternalNodeData) :
    Action MergeOutcome := do
  writeInternal parentPage parentHeader parent
  let s ← Fallible.read
  if !parentHeader.isRoot && parent.separatorKeys.length < minKeysPerNonRootNode s.cfg then
    return .parentUnderfull
  else
    return .merged

/-- `MergeLeafWithRightSibling` up to the call for the parent. -/
def mergeLeafWithRightSibling (leafPage : ℕ) (path : List SearchPathEntry) :
    Action MergeOutcome := do
  match path with
  | [] => return .notMerged
  | link :: _ =>
    let (parentHeader, parent) ← readInternal link.pageId
    match parent.childPageIds[link.childIndex + 1]? with
    | none => return .notMerged
    | some rightPage =>
      let ((leftHeader, left), (rightHeader, right)) ← readLeaves leafPage rightPage
      let merged := left ++ right
      let leftHeader := { leftHeader with nextLeafPageId := rightHeader.nextLeafPageId }
      let s ← Fallible.read
      match buildLeafPage s.cfg leftHeader merged with
      | .error _ => return .notMerged
      | .ok page =>
        writePage leafPage page
        let parent := parent.eraseChild link.childIndex
        if parentHeader.isRoot && parent.separatorKeys.isEmpty then
          writeLeaf leafPage { leftHeader with parentPageId := invalidPageId, isRoot := true } merged
          saveMetadata fun m =>
            { m with rootPageId := leafPage, firstLeafPageId := leafPage, treeHeight := 1 }
          return .merged
        else
          shrinkParent link.pageId parentHeader parent

/-- `MergeInternalWithRightSibling` up to the call for the parent. -/
def mergeInternalWithRightSibling (internalPage : ℕ) (path : List SearchPathEntry) :
    Action MergeOutcome := do
  match path with
  | [] => return .notMerged
  | link :: _ =>
    let (parentHeader, parent) ← readInternal link.pageId
    match parent.childPageIds[link.childIndex + 1]? with
    | none => return .notMerged
    | some rightPage =>
      let ((leftHeader, left), (_, right)) ← readInternals internalPage rightPage
      let merged := left.join (parent.separatorKeys.getD link.childIndex .null) right
      let s ← Fallible.read
      match buildInternalPage s.cfg leftHeader merged with
      | .error _ => return .notMerged
      | .ok page =>
        writePage internalPage page
        rewriteChildrenParent internalPage merged.childPageIds
        let parent := parent.eraseChild link.childIndex
        if parentHeader.isRoot && parent.separatorKeys.isEmpty then
          writeInternal internalPage
            { leftHeader with parentPageId := invalidPageId, isRoot := true } merged
          saveMetadata fun m =>
            { m with rootPageId := internalPage, treeHeight := m.treeHeight - 1 }
          return .merged
        else
          shrinkParent link.pageId parentHeader parent

/-- Share keys with the right sibling or, failing that, take it in. -/
def redistributeOrMerge (pageId : ℕ) (path : List SearchPathEntry) (node : Node) :
    Action MergeOutcome := do
  match node with
  | .leaf _ entries =>
    if ← redistributeLeafWithRightSibling pageId path entries then
      return .merged
    else
      mergeLeafWithRightSibling pageId path
  | .internal _ node =>
    if ← redistributeInternalWithRightSibling pageId path node then
      return .merged
    else
      mergeInternalWithRightSibling pageId path

/-- One level of `RebalanceAfterDelete`: the right sibling first, then the left one. -/
def rebalanceNode (pageId : ℕ) (link : SearchPathEntry) (path : List SearchPathEntry) :
    Action MergeOutcome := do
  let s ← Fallible.read
  let current ← readNode pageId
  if !current.isUnderfull s.cfg then
    return .merged
  else
    let (_, parent) ← readInternal link.pageId
    let outcome ←
      if link.childIndex + 1 < parent.childPageIds.length then
        redistributeOrMerge pageId (link :: path) current
      else
        pure .notMerged
    match outcome with
    | .notMerged =>
      if link.childIndex = 0 then
        return .notMerged
      else
        let leftPage := parent.childPageIds.getD (link.childIndex - 1) invalidPageId
        let left ← readNode leftPage
        redistributeOrMerge leftPage ({ link with childIndex := link.childIndex - 1 } :: path) left
    | outcome => return outcome

def rebalanceAfterDelete (pageId : ℕ) : List SearchPathEntry → Action Unit
  | [] => return ()
  | link :: path => do
    match ← rebalanceNode pageId link path with
    | .parentUnderfull => rebalanceAfterDelete link.pageId path
    | _ => return ()

def keyNotFound : Status := ⟨.kNotFound, "Index key not found"⟩

def deleteFromLeaf (leafPage : ℕ) (path : List SearchPathEntry) (key : Value) : Action Unit := do
  let s ← Fallible.read
  let (header, entries) ← readLeaf leafPage
  let pos := findEntryPosition entries key
  if (entries[pos]?.filter fun entry => entry.key = key).isNone then
    fail (.status keyNotFound)
  else
    let remaining := entries.eraseIdx pos
    if header.isRoot then
      if remaining.isEmpty then
        saveMetadata fun m =>
          { m with
            rootPageId := invalidPageId
            firstLeafPageId := invalidPageId
            treeHeight := 0 }
      else
        writeLeaf leafPage header remaining
        if pos = 0 then
          updateParentSeparatorAfterChildChange (frontKey remaining) path
    else
      writeLeaf leafPage header remaining
      if !remaining.isEmpty ∧ pos = 0 then
        updateParentSeparatorAfterChildChange (frontKey remaining) path
      if (Node.leaf header remaining).isUnderfull s.cfg then
        rebalanceAfterDelete leafPage path

def notOpen : Status := ⟨.kInternalError, "BStarTree is not open"⟩

def keyAlreadyExists : Status := ⟨.kAlreadyExists, "Index key already exists"⟩

def writeFirstLeaf (rootPage : ℕ) (key : Value) (rid : ℕ) : Action Unit := do
  writeLeaf rootPage
    { type := .kLeaf, keyCount := 0, parentPageId := invalidPageId,
      nextLeafPageId := invalidPageId, isRoot := true }
    [⟨key, rid⟩]
  saveMetadata fun m =>
    { m with rootPageId := rootPage, firstLeafPageId := rootPage, treeHeight := 1 }

/-- The first key of an empty tree goes into a new root leaf. -/
def insertFirst (key : Value) (rid : ℕ) : Action Unit := do
  let rootPage ← allocateNodePage
  writeFirstLeaf rootPage key rid

def insert (key : Value) (rid : ℕ) : Action Unit := do
  let s ← Fallible.read
  if !s.isOpen then
    fail (.status notOpen)
  else
    validateKeyType key
    if s.metadata.rootPageId = invalidPageId then
      insertFirst key rid
    else
      let (path, leafPage, existing) ← findPathToLeaf key
      if existing.isSome then
        fail (.status keyAlreadyExists)
      else
        insertIntoLeaf leafPage path key rid

def delete (key : Value) : Action Unit := do
  let s ← Fallible.read
  if !s.isOpen then
    fail (.status notOpen)
  else
    validateKeyType key
    if s.metadata.rootPageId = invalidPageId then
      fail (.status keyNotFound)
    else
      let (path, leafPage, existing) ← findPathToLeaf key
      if existing.isNone then
        fail (.status keyNotFound)
      else
        deleteFromLeaf leafPage path key

def find (key : Value) : Action (Option ℕ) := do
  let s ← Fallible.read
  if !s.isOpen then
    fail (.status notOpen)
  else
    validateKeyType key
    if s.metadata.rootPageId = invalidPageId then
      return none
    else
      let (_, _, existing) ← findPathToLeaf key
      return existing

structure KeyRange where
  low : Option Value := none
  high : Option Value := none
  includeLow : Bool := true
  includeHigh : Bool := false

def fitsInRange (key : Value) (range : KeyRange) : Bool :=
  (match range.low with
    | none => true
    | some low => if range.includeLow then !key.less low else low.less key) &&
  match range.high with
  | none => true
  | some high => if range.includeHigh then !high.less key else key.less high

/-- The test on which `RangeSearch` stops: this key and all later ones are too high. -/
def pastHigh (key : Value) (range : KeyRange) : Bool :=
  match range.high with
  | none => false
  | some high => if range.includeHigh then high.less key else !key.less high

def validateBound : Option Value → Action Unit
  | none => return ()
  | some key => validateKeyType key

def validateRange (range : KeyRange) : Action Unit := do
  validateBound range.low
  validateBound range.high
  if range.low.any fun low => range.high.any fun high => high.less low then
    refuse .kInvalidArgument "Range high bound is smaller than low bound"

/-- The loop over the entries of a leaf: the row ids it appends, and whether the
search goes on with the next leaf. -/
def collectEntries (range : KeyRange) : List LeafEntry → List ℕ × Bool
  | [] => ([], true)
  | entry :: entries =>
    if pastHigh entry.key range then
      ([], false)
    else
      let (rids, more) := collectEntries range entries
      (if fitsInRange entry.key range then entry.rid :: rids else rids, more)

def collectLeaves (range : KeyRange) : ℕ → ℕ → Action (List ℕ)
  | 0, _ => fail .noTermination
  | fuel + 1, current =>
    if current = invalidPageId then
      return []
    else do
      let (header, entries) ← readLeaf current
      let (rids, more) := collectEntries range entries
      if more then
        let later ← collectLeaves range fuel header.nextLeafPageId
        return rids ++ later
      else
        return rids

/-- The leaf with which the search starts. -/
def firstLeafInRange (range : KeyRange) : Action ℕ :=
  match range.low with
  | none => do
    let s ← Fallible.read
    return s.metadata.firstLeafPageId
  | some low => do
    let (_, leafPage, _) ← findPathToLeaf low
    return leafPage

/-- As in `findPathToLeaf`, a search that reads more leaves than there are pages
goes round for ever. -/
def rangeSearch (range : KeyRange) : Action (List ℕ) := do
  let s ← Fallible.read
  if !s.isOpen then
    fail (.status notOpen)
  else
    validateRange range
    if s.metadata.rootPageId = invalidPageId then
      return []
    else
      let current ← firstLeafInRange range
      collectLeaves range (s.pageManager.pages.length + 1) current

def resolveMaxEncodedKeySize (keyType : ValueType) (maxVariableKeyPayloadBytes : ℕ) :
    Except Status ℕ :=
  if maxVariableKeyPayloadBytes = 0 then
    .error ⟨.kInvalidArgument, "max_variable_key_payload_bytes must be greater than zero"⟩
  else
    match keyType with
    | .kInt => .ok 8
    | .kBool => .ok 1
    | .kString => .ok maxVariableKeyPayloadBytes
    | .kNull => .error ⟨.kInvalidArgument, "NULL is not a valid BStarTree key type"⟩

/-- `leaf_entry_size` and `internal_bundle_size`; sizes are `std::size_t` values. -/
def entrySize (maxEncodedKeySize : ℕ) : ℕ := (4 + maxEncodedKeySize + 8) % 2 ^ 64

def computeMinDegreeForPage (pageSize maxEncodedKeySize : ℕ) : Except Status ℕ :=
  let leafMaxKeys := (pageSize - nodeHeaderSize) / entrySize maxEncodedKeySize
  let internalMaxKeys := (pageSize - nodeHeaderSize - 8) / entrySize maxEncodedKeySize
  let maxKeys := min leafMaxKeys internalMaxKeys
  if maxEncodedKeySize = 0 then
    .error ⟨.kInvalidArgument, "max_encoded_key_size must be greater than zero"⟩
  else if pageSize ≤ nodeHeaderSize + 8 then
    .error ⟨.kInvalidArgument, "Page size is too small for BStarTree node headers"⟩
  else if maxKeys < 3 then
    .error ⟨.kInvalidArgument, "Page size is too small to support BStarTree min_degree >= 2"⟩
  else
    .ok ((maxKeys + 1) / 2)

def emptyMetadata (cfg : Config) : TreeMetadata :=
  { rootPageId := invalidPageId, firstLeafPageId := invalidPageId, minDegree := cfg.minDegree,
    maxKeyPayloadBytes := cfg.maxKeyPayloadBytes, treeHeight := 0 }

def new (cfg : Config) (file : Option PageFile) : BStarTree :=
  { cfg, pageManager := PageManager.new cfg.pageSize file, isOpen := false,
    metadata := emptyMetadata cfg }

def initializeTree : Action Unit := do
  let metadataPage ← onPages PageManager.allocatePage
  if metadataPage ≠ 0 then
    refuse .kInternalError "Metadata page must be page 0"
  else
    let s ← Fallible.read
    saveMetadata fun _ => emptyMetadata s.cfg

def loadMetadata : Action Unit := do
  let page ← readPage 0
  let s ← Fallible.read
  let metadata ← parsed (deserializeMetadata s.cfg page)
  setMetadata fun _ => metadata

/-- A file without a first page is a new tree. -/
def loadOrInitialize : Action Unit := fun s =>
  match readPage 0 s with
  | (.ok _, s) => loadMetadata s
  | (.error (.status e), s) =>
    if e.code ≠ .kNotFound then (.error (.status e), s) else initializeTree s
  | (.error .noTermination, s) => (.error .noTermination, s)

def openTree : Action Unit := do
  let s ← Fallible.read
  if s.isOpen then
    return ()
  else if s.cfg.maxKeyPayloadBytes = 0 then
    refuse .kInvalidArgument "BStarTree key payload policy must be greater than zero"
  else if s.cfg.minDegree < 2 then
    refuse .kInvalidArgument "BStarTree min_degree must be at least 2"
  else
    onPages PageManager.openFile
    loadOrInitialize
    Fallible.modify fun s => { s with isOpen := true }

end BStarTree

end CourseDb

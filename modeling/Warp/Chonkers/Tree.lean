import Warp.Chonkers.Chunker
import Warp.Foundation.Table

/-! # The chunk tree

The leaves of the tree are the chunks of some data. Layer by layer, neighbouring nodes are
grouped under a node that covers their range, until one node is left or twenty layers are
built. Nodes are stored under the hash of their content.
-/

namespace Warp.Chonkers

abbrev VersionId := ℕ

structure ChonkerNode where
  id : ChunkId
  weight : ChunkWeight
  layer : ℕ
  dataRange : ℕ × ℕ
  children : List ChunkId
  parent : Option ChunkId
  dirty : Bool

namespace ChonkerNode

def leaf (id : ChunkId) (weight : ChunkWeight) (dataRange : ℕ × ℕ) : ChonkerNode :=
  ⟨id, weight, 0, dataRange, [], none, true⟩

def internal (id : ChunkId) (weight : ChunkWeight) (layer : ℕ) (dataRange : ℕ × ℕ)
    (children : List ChunkId) : ChonkerNode :=
  ⟨id, weight, layer, dataRange, children, none, true⟩

variable (node : ChonkerNode)

def isLeaf : Bool := node.children.isEmpty

def size : ℕ := node.dataRange.2 - node.dataRange.1

def setParent (parentId : ChunkId) : ChonkerNode :=
  { node with parent := some parentId, dirty := true }

end ChonkerNode

abbrev Nodes := Table ChunkId ChonkerNode

structure ChonkerTree where
  versionId : VersionId
  root : Option ChunkId
  nodes : Nodes
  config : ChonkersConfig
  dataSize : ℕ

/-- The children of one new node: their range runs from the least start to the greatest
end. -/
structure Group where
  ids : List ChunkId
  start : ℕ
  stop : ℕ
  size : ℕ

namespace Group

def empty : Group := ⟨[], 2 ^ 64 - 1, 0, 0⟩

def push (group : Group) (childId : ChunkId) (dataRange : ℕ × ℕ) : Group :=
  ⟨group.ids ++ [childId], min group.start dataRange.1, max group.stop dataRange.2,
    group.size + (dataRange.2 - dataRange.1)⟩

end Group

namespace ChonkerTree

variable (overflowChecks : Bool) (hash : Bytes → ChunkId) (config : ChonkersConfig) (data : Bytes)

def takeGroup (nodes : Nodes) (layerConfig : LayerConfig) :
    List ChunkId → Group → Outcome Error (Group × List ChunkId)
  | [], group => .ok (group, [])
  | childId :: rest, group =>
    match nodes.lookup childId with
    | none => .panic
    | some child =>
      if group.size > 0 ∧ group.size + child.size > layerConfig.maxSize then
        .ok (group, childId :: rest)
      else if (group.push childId child.dataRange).size ≥ layerConfig.targetSize then
        .ok (group.push childId child.dataRange, rest)
      else takeGroup nodes layerConfig rest (group.push childId child.dataRange)

def setParent (parentId : ChunkId) (nodes : Nodes) (childId : ChunkId) : Nodes :=
  match nodes.lookup childId with
  | some child => nodes.insert childId (child.setParent parentId)
  | none => nodes

/-- A single child is promoted directly; for more an internal node is created. -/
def closeGroup (layer : ℕ) (nodes : Nodes) (group : Group) : Outcome Error (ChunkId × Nodes) :=
  match group.ids with
  | [only] => .ok (only, nodes)
  | _ =>
    if group.start ≤ group.stop ∧ group.stop ≤ data.length then
      let internalData := Bytes.slice data group.start group.stop
      let internalId := hash internalData
      let internalNode := ChonkerNode.internal internalId (ChunkWeight.fromData hash internalData)
        layer (group.start, group.stop) group.ids
      .ok (internalId,
        (group.ids.foldl (setParent internalId) nodes).insert internalId internalNode)
    else .panic

def groupLayer (layerConfig : LayerConfig) (layer : ℕ) :
    ℕ → List ChunkId → Nodes → Outcome Error (List ChunkId × Nodes)
  | _, [], nodes => .ok ([], nodes)
  | 0, _ :: _, nodes => .ok ([], nodes)
  | fuel + 1, first :: rest, nodes =>
    (takeGroup nodes layerConfig (first :: rest) Group.empty).bind fun taken =>
      (closeGroup hash data layer nodes taken.1).bind fun closed =>
        (groupLayer layerConfig layer fuel taken.2 closed.2).bind fun next =>
          .ok (closed.1 :: next.1, next.2)

def buildLayers : ℕ → ℕ → List ChunkId → Nodes → Outcome Error (List ChunkId × Nodes)
  | 0, _, ids, nodes => .ok (ids, nodes)
  | fuel + 1, layer, ids, nodes =>
    if ids.length > 1 then
      (config.layer overflowChecks layer).bind fun layerConfig =>
        (groupLayer hash data layerConfig layer ids.length ids nodes).bind fun next =>
          buildLayers fuel (layer + 1) next.1 next.2
    else .ok (ids, nodes)

def maxLayers : ℕ := 20

def buildInternalLayers (leafIds : List ChunkId) (nodes : Nodes) :
    Outcome Error (ChunkId × Nodes) :=
  (buildLayers overflowChecks hash config data maxLayers 1 leafIds nodes).bind fun top =>
    match top.1 with
    | root :: _ => .ok (root, top.2)
    | [] => .panic

def new (versionId : VersionId) : ChonkerTree := ⟨versionId, none, ∅, config, 0⟩

def insertLeaf (nodes : Nodes) (chunk : Chunk) : Nodes :=
  nodes.insert chunk.id
    (ChonkerNode.leaf chunk.id chunk.weight (chunk.offset, chunk.offset + chunk.length))

def fromData (versionId : VersionId) : Outcome Error ChonkerTree :=
  if data.isEmpty then .ok (new config versionId)
  else
    (chunk overflowChecks hash config data).bind fun chunks =>
      let nodes := chunks.foldl insertLeaf ∅
      let leafIds := chunks.map Chunk.id
      if leafIds.isEmpty then .ok ⟨versionId, none, nodes, config, data.length⟩
      else (buildInternalLayers overflowChecks hash config data leafIds nodes).bind fun top =>
        .ok ⟨versionId, some top.1, top.2, config, data.length⟩

def leaves (tree : ChonkerTree) : List ChonkerNode := tree.nodes.values.filter ChonkerNode.isLeaf

end ChonkerTree

end Warp.Chonkers

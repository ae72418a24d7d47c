import Auxlry.Spec.HybridSearch
import Auxlry.Spec.MemoryCalls
import Auxlry.Sql.Table

/-!
# The tables of the memory graph

The SQLite tables `memory_metadata` and `memory_edges` with the statements that write and
read them. The first has a primary key, and an edge is unique by its ends and its relation. A
query has no order, so that it may return its rows in any.

The ids of edges are given out by SQLite, in increasing order; an edge comes with the number of
ids that were skipped before it.
-/

namespace Auxlry

variable {W K : Type}

/-- A row of `memory_metadata`. -/
structure MemoryMetadata extends MetadataRow where
  id : String
  deriving DecidableEq, Repr

/-- A row of `memory_edges`. -/
structure EdgeRecord (W : Type) extends MemoryEdge where
  weight : W
  createdAt : String
  deriving DecidableEq, Repr

/-- The columns that are unique together. -/
def EdgeRecord.ends (r : EdgeRecord W) : String × String × String := (r.sourceId, r.targetId, r.relationType)

/-- A graph edge between two memories. -/
structure GraphEdge (W : Type) where
  id : ℕ
  sourceId : String
  targetId : String
  relationType : EdgeType
  weight : W
  createdAt : String
  deriving DecidableEq, Repr

/-- A row as an edge; a relation that does not exist is shown as the first one. -/
def EdgeRecord.edge (r : EdgeRecord W) : GraphEdge W :=
  ⟨r.id, r.sourceId, r.targetId, (EdgeType.fromStr r.relationType).getD .relatedTo, r.weight, r.createdAt⟩

structure GraphTables (W : Type) where
  metadata : Sql.Table MemoryMetadata.id
  edges : Sql.Table (EdgeRecord.ends (W := W))
  /-- the last id of an edge -/
  edgeSeq : ℕ

inductive GraphStatement (W : Type)
  | createEdge (sourceId targetId : String) (relationType : EdgeType) (weight : W) (skipped : ℕ)
  | initMemoryMetadata (memoryId memoryType : String)
  | recordMemoryAccess (memoryId : String)
  | updateMemoryType (memoryId newType : String)
  | deleteMemoryMetadata (memoryId : String)
  | deleteEdgesFor (memoryId : String)

/-- A statement, with the time and whether it succeeds. -/
structure GraphCall (W : Type) where
  statement : GraphStatement W
  now : String
  queryOk : Bool

namespace GraphTables

def empty : GraphTables W := ⟨.empty, .empty, 0⟩

/-! ## Statements -/

/-- `INSERT … ON CONFLICT … DO UPDATE SET weight`. -/
def createEdge (t : GraphTables W) (now sourceId targetId : String) (relationType : EdgeType) (weight : W)
    (skipped : ℕ) : GraphTables W :=
  let row : EdgeRecord W := ⟨⟨t.edgeSeq + skipped + 1, sourceId, targetId, relationType.asStr⟩, weight, now⟩
  { t with
    edges := t.edges.upsert row ({ · with weight := weight }) fun _ => rfl
    edgeSeq := if t.edges.get row.ends = none then t.edgeSeq + skipped + 1 else t.edgeSeq }

/-- `INSERT OR IGNORE` of a row with the defaults. -/
def initMemoryMetadata (t : GraphTables W) (now memoryId memoryType : String) : GraphTables W :=
  { t with metadata := t.metadata.upsert ⟨⟨memoryType, 0, now, now⟩, memoryId⟩ id fun _ => rfl }

def recordMemoryAccess (t : GraphTables W) (now memoryId : String) : GraphTables W :=
  { t with
    metadata := t.metadata.modify memoryId
      (fun m => { m with accessCount := m.accessCount + 1, lastAccessedAt := now }) fun _ => rfl }

def updateMemoryType (t : GraphTables W) (memoryId newType : String) : GraphTables W :=
  { t with metadata := t.metadata.modify memoryId ({ · with memoryType := newType }) fun _ => rfl }

def deleteMemoryMetadata (t : GraphTables W) (memoryId : String) : GraphTables W :=
  { t with metadata := t.metadata.delete (·.id = memoryId) }

def deleteEdgesFor (t : GraphTables W) (memoryId : String) : GraphTables W :=
  { t with edges := t.edges.delete fun r => r.sourceId = memoryId ∨ r.targetId = memoryId }

def exec (t : GraphTables W) (now : String) : GraphStatement W → GraphTables W
  | .createEdge sourceId targetId relationType weight skipped =>
    t.createEdge now sourceId targetId relationType weight skipped
  | .initMemoryMetadata memoryId memoryType => t.initMemoryMetadata now memoryId memoryType
  | .recordMemoryAccess memoryId => t.recordMemoryAccess now memoryId
  | .updateMemoryType memoryId newType => t.updateMemoryType memoryId newType
  | .deleteMemoryMetadata memoryId => t.deleteMemoryMetadata memoryId
  | .deleteEdgesFor memoryId => t.deleteEdgesFor memoryId

/-- A call; one that fails changes nothing. -/
def call (t : GraphTables W) (c : GraphCall W) : GraphTables W := if c.queryOk then t.exec c.now c.statement else t

/-! ## Queries -/

/-- The rows that `edges_for` may get. -/
def EdgesAnswer (t : GraphTables W) (memoryId : String) (rows : List (EdgeRecord W)) : Prop :=
  rows.Perm (t.edges.rows.filter fun r => r.sourceId = memoryId ∨ r.targetId = memoryId)

/-- Get all edges touching a memory, from the rows of its query. -/
def edgesFor (rows : List (EdgeRecord W)) : List (GraphEdge W) := rows.map (·.edge)

/-- Count edges touching a memory. -/
def edgeCount (t : GraphTables W) (memoryId : String) : ℕ :=
  t.edges.rows.countP fun r => r.sourceId = memoryId ∨ r.targetId = memoryId

/-- Get metadata for a memory. -/
def memoryMetadata (t : GraphTables W) (memoryId : String) : Except String MemoryMetadata :=
  (t.metadata.get memoryId).elim (.error "memory metadata not found") .ok

end GraphTables

/-! ## The graph of the dashboard -/

structure GraphNode where
  id : String
  memoryType : String
  accessCount : ℕ
  content : String
  createdAt : String
  deriving DecidableEq, Repr

structure GraphLink (W : Type) where
  source : String
  target : String
  relationType : EdgeType
  weight : W
  deriving DecidableEq, Repr

/-- The content map, which holds the last content of an id; none is fetched without a store. -/
def contentOf (fetched : List (SearchResult K)) (id : String) : String :=
  ((fetched.reverse.find? (·.id = id)).map (·.content)).getD ""

/-- The nodes and the links of the graph, from the rows of both tables and the contents that
were fetched. -/
def memoriesGraph (metadata : List MemoryMetadata) (edges : List (EdgeRecord W)) (fetched : List (SearchResult K)) :
    List GraphNode × List (GraphLink W) :=
  (metadata.map fun m => ⟨m.id, m.memoryType, m.accessCount, contentOf fetched m.id, m.createdAt⟩,
    (edges.map (·.edge)).map fun e => ⟨e.sourceId, e.targetId, e.relationType, e.weight⟩)

end Auxlry

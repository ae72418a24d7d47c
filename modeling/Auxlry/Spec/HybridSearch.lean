import Auxlry.Graph.Levels
import Auxlry.Rank.Fuse
import Auxlry.Rank.Top
import Auxlry.Spec.Filters
import Auxlry.Spec.Importance

/-!
# Hybrid search

A search takes the rows nearest to the query, adds the memories that edges lead to, fuses
the two lists by their ranks, weighs each result by its importance and returns the best.
What the stores answer is part of the environment of a search: any lookup may fail, and
rows that are not sorted come in any order. A hash map is visited in any order.
-/

namespace Auxlry

variable {V : Type}

/-! ## Parameters and results -/

/-- The values of a float that a threshold may have. -/
inductive Threshold (K : Type*)
  | nan
  | negInfinity
  | finite (x : K)
  | infinity
  deriving DecidableEq, Repr

namespace Threshold

variable {K : Type*} [LinearOrder K]

/-- `x < m`. -/
def exceeds (m : Threshold K) (x : K) : Bool :=
  match m with
  | .nan | .negInfinity => false
  | .finite y => decide (x < y)
  | .infinity => true

/-- `x >= m`. -/
def reached (m : Threshold K) (x : K) : Bool :=
  match m with
  | .nan | .infinity => false
  | .finite y => decide (y ≤ x)
  | .negInfinity => true

/-- `m > 0`. -/
def positive [Zero K] (m : Threshold K) : Bool :=
  match m with
  | .nan | .negInfinity => false
  | .finite y => decide (0 < y)
  | .infinity => true

end Threshold

/-- Parameters for hybrid search. -/
structure SearchParams (K : Type*) where
  limit : UInt64
  typeFilter : Option MemoryType
  minImportance : Threshold K
  graphDepth : UInt8

/-- A search result from semantic memory. -/
structure SearchResult (K : Type*) where
  id : String
  content : String
  source : String
  score : K
  memoryType : MemoryType
  deriving DecidableEq, Repr

/-- A row as a result; a type that does not exist is an observation. -/
def MemoryRow.toResult {K : Type*} (row : MemoryRow V) (score : K) : SearchResult K :=
  ⟨row.id, row.content, row.source, score, (MemoryType.fromStr row.memoryType).getD .observation⟩

/-! ## The database -/

/-- The other end of an edge. -/
def MemoryEdge.neighbor (edge : MemoryEdge) (memId : String) : String :=
  if edge.sourceId = memId then edge.targetId else edge.sourceId

namespace Stores

/-- The edges touching a memory. -/
def edgesAt (s : Stores V) (id : String) : Multiset MemoryEdge :=
  s.edges.filter fun edge => edge.sourceId = id ∨ edge.targetId = id

/-- Record an access to a memory: an `UPDATE`, of the row there is. -/
def recordMemoryAccess (s : Stores V) (now id : String) : Stores V :=
  s.setMetadata id ((s.metadata id).map fun md =>
    { md with accessCount := md.accessCount + 1, lastAccessedAt := now })

end Stores

/-- The answers to a search. -/
structure SearchEnv (K : Type*) [Zero K] [LE K] (s : Stores V) where
  /-- the rows nearest to the query with their distances, at most as many as asked for -/
  nearest : ℕ → Except String (List (MemoryRow V × K))
  /-- the answer to the n-th lookup of edges -/
  edgesFor : ℕ → String → Option (List MemoryEdge)
  edgesFor_eq : ∀ {n id edges}, edgesFor n id = some edges → s.edgesAt id = edges
  /-- the rows that the filter of some ids selects -/
  fetched : List String → Except String (List (MemoryRow V))
  fetched_eq : ∀ {ids rows}, ids ≠ [] → fetched ids = .ok rows →
    selected (idsFilter ids) s.memories = some (rows : Multiset (MemoryRow V))
  importance : Importance K
  metadataOk : String → Bool
  edgeCountOk : String → Bool
  recordOk : String → Bool
  /-- `datetime('now')` -/
  now : String

/-- The order in which a hash map is visited. -/
structure HashOrder (α : Type*) where
  visit : List α → List α
  perm : ∀ l, (visit l).Perm l

namespace SearchEnv

variable {K : Type*} [Field K] [LinearOrder K] {s : Stores V} (e : SearchEnv K s)

/-- Pure vector search. -/
def vectorSearch (limit : ℕ) : Except String (List (SearchResult K)) :=
  (e.nearest limit).map fun rows => rows.map fun (row, distance) => row.toResult (1 - distance)

/-- Fetch memories by their ids. -/
def fetchByIds (ids : List String) : Except String (List (SearchResult K)) :=
  if ids.isEmpty then .ok []
  else (e.fetched ids).map fun rows => rows.map fun row => row.toResult 0

/-- Get metadata for a memory. -/
def memoryMetadata (id : String) : Option MetadataRow :=
  if e.metadataOk id then s.metadata id else none

/-- Count edges touching a memory; none, if that fails. -/
def edgeCount (id : String) : ℕ := if e.edgeCountOk id then (s.edgesAt id).card else 0

/-! ## Graph expansion -/

/-- Look at the edges of each memory of a frontier, after `n` lookups. -/
def expandFrontier (n : ℕ) : List String → Graph.Search String → Graph.Search String
  | [], x => x
  | memId :: frontier, x =>
    let x := match e.edgesFor n memId with
      | some edges => (edges.map (·.neighbor memId)).foldl Graph.Search.see x
      | none => x
    expandFrontier (n + 1) frontier x

/-- Expand the frontier level by level. -/
def expand : ℕ → ℕ → Graph.Search String → Graph.Search String
  | 0, _, x => x
  | depth + 1, n, x => expand depth (n + x.next.length) (e.expandFrontier n x.next x.nextLevel)

/-- The ids found by graph expansion from the top vector results. -/
def graphIds (p : SearchParams K) (vectorResults : List (SearchResult K)) : List String :=
  if p.graphDepth = 0 ∨ vectorResults.isEmpty then []
  else
    let seedIds := (vectorResults.take p.limit.toNat).map (·.id)
    (e.expand p.graphDepth.toNat 0 (Graph.Search.start seedIds)).found

/-! ## Fusion -/

/-- `1.0 / (k + rank as f32 + 1.0)`, `k = 60`. -/
def rankScore (rank : ℕ) : K := 1 / (60 + rank + 1)

/-- Vector scores: rank-based. -/
def vectorScores (vectorResults : List (SearchResult K)) : List (K × SearchResult K) :=
  vectorResults.zipIdx.map fun (result, rank) => (rankScore rank, result)

/-- Graph scores: half-weight. -/
def graphScores (graphResults : List (SearchResult K)) : List (K × SearchResult K) :=
  graphResults.zipIdx.map fun (result, rank) => (0.5 * rankScore rank, result)

/-- The score of each id, with its first result. -/
def scoreMap (vectorResults graphResults : List (SearchResult K)) : List (K × SearchResult K) :=
  Rank.fuse (·.id) (vectorScores vectorResults ++ graphScores graphResults)

/-- The importance of a memory, if there is metadata. -/
def importanceOf (id : String) : Option K :=
  (e.memoryMetadata id).map fun md => e.importance.of md.accessCount (e.edgeCount id) md.lastAccessedAt

/-- Importance boost and type filter. -/
def boost (p : SearchParams K) (x : K × SearchResult K) : Option (K × SearchResult K) :=
  let boosted := match e.importanceOf x.2.id with
    | some importance =>
      if p.minImportance.exceeds importance then none else some (x.1 * (1 + importance * 0.1))
    | none => some x.1
  match boosted with
  | some score => if p.typeFilter.all (x.2.memoryType == ·) then some (score, x.2) else none
  | none => none

/-- The best results, from the best one down. -/
def best (order : HashOrder (K × SearchResult K)) (p : SearchParams K)
    (vectorResults graphResults : List (SearchResult K)) : List (SearchResult K) :=
  let results := (order.visit (scoreMap vectorResults graphResults)).filterMap (e.boost p)
  (Rank.top Prod.fst p.limit.toNat results).map fun (score, result) => { result with score := score }

/-- Record the access to a result; a failure is ignored. -/
def recordAccess (s' : Stores V) (r : SearchResult K) : Stores V :=
  if e.recordOk r.id then s'.recordMemoryAccess e.now r.id else s'

/-- Record access for returned results. -/
def recordAccesses (results : List (SearchResult K)) : Stores V := results.foldl e.recordAccess s

/-- How many rows a search asks for. The product wraps around; with overflow checks it
panics instead. -/
def overfetch (p : SearchParams K) : ℕ := (p.limit * 3).toNat

/-- Hybrid search: vector + graph traversal + RRF fusion + importance boost. -/
def hybridSearch (order : HashOrder (K × SearchResult K)) (p : SearchParams K) :
    Stores V × Except String (List (SearchResult K)) :=
  match e.vectorSearch (overfetch p) with
  | .error text => (s, .error text)
  | .ok vectorResults =>
    match e.fetchByIds (e.graphIds p vectorResults) with
    | .error text => (s, .error text)
    | .ok graphResults =>
      let results := e.best order p vectorResults graphResults
      (e.recordAccesses results, .ok results)

end SearchEnv

end Auxlry

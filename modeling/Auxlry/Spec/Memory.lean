import Auxlry.Spec.MemoryTypes
import Mathlib.Data.Multiset.Filter
import Mathlib.Logic.Function.Basic

/-!
# Memory operations

A memory has a row in the LanceDB table `memories`, with its embedding, and one in the
SQLite table `memory_metadata`; `memory_edges` relates memories. The operations write to
these one after the other. Each write is atomic, and any of them may fail: which one
does is part of the environment of a call, like the time, the embedding and the
generated id. A table without an order is a multiset of rows.
-/

namespace Auxlry

variable {V : Type}

/-- A row of the LanceDB table, with an embedding of type `V`. -/
structure MemoryRow (V : Type) where
  id : String
  content : String
  source : String
  memoryType : String
  createdAt : String
  vector : V
  deriving DecidableEq, Repr

/-- A row of `memory_metadata`, without its primary key. -/
structure MetadataRow where
  memoryType : String
  accessCount : ℕ
  lastAccessedAt : String
  createdAt : String
  deriving DecidableEq, Repr

/-- A row of `memory_edges`. -/
structure MemoryEdge where
  id : ℕ
  sourceId : String
  targetId : String
  relationType : String
  deriving DecidableEq, Repr

structure Stores (V : Type) where
  memories : Multiset (MemoryRow V)
  metadata : String → Option MetadataRow
  edges : Multiset MemoryEdge

/-- The places where an operation may fail. -/
inductive SubStep
  /-- the core has a memory store -/
  | available
  | embed
  | recordBatch
  | openForAdd
  | addRow
  | openForDelete
  | deleteRows
  | initMetadata
  | updateType
  | deleteEdges
  | deleteMetadata
  deriving DecidableEq, Repr

/-- The environment of a call: the time, the embedding of the content, and the sub-step
that fails, if one does, with the text of its error. -/
structure Env (V : Type) where
  now : String
  vector : V
  fault : Option (SubStep × String)
  deriving DecidableEq, Repr

/-- The sub-step that fails. -/
def Env.failsAt (e : Env V) (p : SubStep) : Prop := e.fault.map (·.1) = some p

instance (e : Env V) (p : SubStep) : Decidable (e.failsAt p) := inferInstanceAs (Decidable (_ = _))

/-- Do one sub-step: it succeeds with `next`, or fails and changes nothing. The error has
its own text, or the context put in its place. -/
def attempt (e : Env V) (p : SubStep) (context : Option String) (s next : Stores V) :
    Stores V × Except String Unit :=
  match e.fault with
  | some (q, text) => if q = p then (s, .error (context.getD text)) else (next, .ok ())
  | none => (next, .ok ())

/-- Go on after a sub-step that succeeded. -/
def andThen (r : Stores V × Except String Unit) (f : Stores V → Stores V × Except String Unit) :
    Stores V × Except String Unit :=
  match r.2 with
  | .ok () => f r.1
  | .error _ => r

namespace Stores

/-! ## The vector store -/

/-- The row of a new memory. -/
def newRow (e : Env V) (id content : String) (source : Option String) (t : MemoryType) : MemoryRow V :=
  ⟨id, content, source.getD "", t.asStr, e.now, e.vector⟩

def addRow (s : Stores V) (row : MemoryRow V) : Stores V := { s with memories := row ::ₘ s.memories }

def removeRows (s : Stores V) (id : String) : Stores V :=
  { s with memories := s.memories.filter (·.id ≠ id) }

/-- `MemoryStore::store`: embed the content and add a row. -/
def store (s : Stores V) (e : Env V) (id content : String) (source : Option String) (t : MemoryType) :
    Stores V × Except String Unit :=
  andThen (attempt e .embed (some "embedding failed") s s) fun s =>
  andThen (attempt e .recordBatch none s s) fun s =>
  andThen (attempt e .openForAdd none s s) fun s =>
  attempt e .addRow (some "failed to add memory") s (s.addRow (newRow e id content source t))

/-- Delete the rows of a memory from LanceDB. -/
def deleteRows (s : Stores V) (e : Env V) (id context : String) : Stores V × Except String Unit :=
  andThen (attempt e .openForDelete none s s) fun s =>
  attempt e .deleteRows (some context) s (s.removeRows id)

/-- `MemoryStore::delete`. -/
def delete (s : Stores V) (e : Env V) (id : String) : Stores V × Except String Unit :=
  s.deleteRows e id "failed to delete memory"

/-- `MemoryStore::update`: delete old row, re-embed content, insert new row with same ID. -/
def update (s : Stores V) (e : Env V) (id content : String) (source : Option String) (t : MemoryType) :
    Stores V × Except String Unit :=
  andThen (s.deleteRows e id "failed to delete old memory for update") fun s =>
  s.store e id content source t

/-! ## The metadata -/

def setMetadata (s : Stores V) (id : String) (row : Option MetadataRow) : Stores V :=
  { s with metadata := Function.update s.metadata id row }

/-- `INSERT OR IGNORE` of a metadata row. -/
def initMemoryMetadata (s : Stores V) (e : Env V) (id : String) (t : MemoryType) :
    Stores V × Except String Unit :=
  attempt e .initMetadata (some "failed to init memory metadata") s
    (s.setMetadata id (some ((s.metadata id).getD ⟨t.asStr, 0, e.now, e.now⟩)))

/-- `UPDATE` of a memory's type: nothing happens to an id without a row. -/
def updateMemoryType (s : Stores V) (e : Env V) (id : String) (t : MemoryType) :
    Stores V × Except String Unit :=
  attempt e .updateType (some "failed to update memory type") s
    (s.setMetadata id ((s.metadata id).map ({ · with memoryType := t.asStr })))

def removeEdges (s : Stores V) (id : String) : Stores V :=
  { s with edges := s.edges.filter fun edge => ¬ (edge.sourceId = id ∨ edge.targetId = id) }

/-- Delete all edges touching a memory (as source or target). -/
def deleteEdgesFor (s : Stores V) (e : Env V) (id : String) : Stores V × Except String Unit :=
  attempt e .deleteEdges (some "failed to delete edges") s (s.removeEdges id)

/-- Delete memory metadata by ID. -/
def deleteMemoryMetadata (s : Stores V) (e : Env V) (id : String) : Stores V × Except String Unit :=
  attempt e .deleteMetadata (some "failed to delete memory metadata") s
    (s.setMetadata id none)

end Stores

/-! ## Operations -/

/-- A call of a memory tool or of the HTTP API; a store comes with the id generated for it. -/
inductive MemoryOp
  | toolStore (id content : String) (memoryType source : Option String)
  | httpStore (id content : String) (memoryType source : Option String)
  | toolUpdate (id content : String) (memoryType : Option String)
  | toolDelete (id : String)
  deriving DecidableEq, Repr

/-- The id that a call is about. -/
def MemoryOp.id : MemoryOp → String
  | .toolStore id .. | .httpStore id .. | .toolUpdate id .. | .toolDelete id => id

inductive Reply
  | text (message : String)
  | toolError (message : String)
  /-- `{"id", "memory_type", "stored": true}` -/
  | stored (id memoryType : String)
  /-- `{"error"}` -/
  | jsonError (message : String)
  deriving DecidableEq, Repr

def Reply.isError : Reply → Bool
  | .toolError _ | .jsonError _ => true
  | .text _ | .stored .. => false

/-- The outcome of a call: the stores, the reply, and the key and summary of a
`MemoryStored` event, if one is published. -/
structure Outcome (V : Type) where
  stores : Stores V
  reply : Reply
  published : Option (String × String)

/-- The summary of a stored memory. -/
def summary (content : String) : String := String.ofList (content.toList.take 100)

/-- The outcome of a tool call. -/
def toolOutcome (r : Stores V × Except String Unit) (message : String)
    (published : Option (String × String)) : Outcome V :=
  match r.2 with
  | .ok () => ⟨r.1, .text message, published⟩
  | .error text => ⟨r.1, .toolError text, none⟩

/-- One call. -/
def perform (s : Stores V) (e : Env V) : MemoryOp → Outcome V
  | .toolStore id content memoryType source =>
    let t := chooseType memoryType content
    toolOutcome (andThen (s.store e id content source t) fun s => s.initMemoryMetadata e id t)
      ("Stored memory " ++ id ++ " (type: " ++ t.asStr ++ ")") (some (id, summary content))
  | .httpStore id content memoryType source =>
    let t := chooseType memoryType content
    match andThen (attempt e .available (some "memory store not available") s s) fun s =>
        s.store e id content source t with
    -- the result of the second write is dropped
    | (s', .ok ()) => ⟨(s'.initMemoryMetadata e id t).1, .stored id t.asStr, none⟩
    | (s', .error text) => ⟨s', .jsonError text, none⟩
  | .toolUpdate id content memoryType =>
    let t := chooseType memoryType content
    toolOutcome (andThen (s.update e id content none t) fun s => s.updateMemoryType e id t)
      ("Updated memory " ++ id) (some (id, summary content))
  | .toolDelete id =>
    toolOutcome (andThen (s.delete e id) fun s => andThen (s.deleteEdgesFor e id) fun s =>
      s.deleteMemoryMetadata e id) ("Deleted memory " ++ id ++ " and its edges") none

end Auxlry

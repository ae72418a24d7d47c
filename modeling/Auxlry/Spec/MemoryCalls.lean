import Auxlry.Spec.Memory

/-!
# Memory calls side by side

A call writes to the stores in several sub-steps and waits between them, so those of other
synapses and of the HTTP API come in between. A sub-step is atomic; one that fails ends
its call. Calls that relate two memories have one sub-step, the upsert of an edge; the
weight of an edge is left out.
-/

namespace Auxlry

variable {V : Type}

/-- Types of relationships between memories. -/
inductive EdgeType
  | relatedTo
  | supersedes
  | contradicts
  | causedBy
  | partOf
  deriving DecidableEq, Repr

namespace EdgeType

def asStr : EdgeType → String
  | .relatedTo => "related_to"
  | .supersedes => "supersedes"
  | .contradicts => "contradicts"
  | .causedBy => "caused_by"
  | .partOf => "part_of"

def fromStr : String → Option EdgeType
  | "related_to" => some .relatedTo
  | "supersedes" => some .supersedes
  | "contradicts" => some .contradicts
  | "caused_by" => some .causedBy
  | "part_of" => some .partOf
  | _ => none

theorem fromStr_asStr (t : EdgeType) : fromStr t.asStr = some t := by cases t <;> decide

end EdgeType

/-! ## The sub-steps of an operation -/

namespace MemoryOp

def program : MemoryOp → List SubStep
  | .toolStore .. => [.embed, .recordBatch, .openForAdd, .addRow, .initMetadata]
  | .httpStore .. => [.available, .embed, .recordBatch, .openForAdd, .addRow, .initMetadata]
  | .toolUpdate .. =>
    [.openForDelete, .deleteRows, .embed, .recordBatch, .openForAdd, .addRow, .updateType]
  | .toolDelete _ => [.openForDelete, .deleteRows, .deleteEdges, .deleteMetadata]

/-- The context that an error is given. -/
def context (op : MemoryOp) : SubStep → Option String
  | .available => some "memory store not available"
  | .embed => some "embedding failed"
  | .recordBatch | .openForAdd | .openForDelete => none
  | .addRow => some "failed to add memory"
  | .deleteRows =>
    match op with
    | .toolUpdate .. => some "failed to delete old memory for update"
    | _ => some "failed to delete memory"
  | .initMetadata => some "failed to init memory metadata"
  | .updateType => some "failed to update memory type"
  | .deleteEdges => some "failed to delete edges"
  | .deleteMetadata => some "failed to delete memory metadata"

/-- A sub-step whose result is dropped. -/
def drops : MemoryOp → SubStep → Bool
  | .httpStore .., .initMetadata => true
  | _, _ => false

/-- The reply of a call that went through. -/
def success : MemoryOp → Reply
  | .toolStore id content memoryType _ =>
    .text ("Stored memory " ++ id ++ " (type: " ++ (chooseType memoryType content).asStr ++ ")")
  | .httpStore id content memoryType _ => .stored id (chooseType memoryType content).asStr
  | .toolUpdate id .. => .text ("Updated memory " ++ id)
  | .toolDelete id => .text ("Deleted memory " ++ id ++ " and its edges")

/-- The reply of a call that failed. -/
def failure (op : MemoryOp) (text : String) : Reply :=
  match op with
  | .httpStore .. => .jsonError text
  | _ => .toolError text

/-- The row that an operation adds. -/
def row (e : Env V) : MemoryOp → Option (MemoryRow V)
  | .toolStore id content memoryType source | .httpStore id content memoryType source =>
    some (Stores.newRow e id content source (chooseType memoryType content))
  | .toolUpdate id content memoryType => some (Stores.newRow e id content none (chooseType memoryType content))
  | .toolDelete _ => none

end MemoryOp

namespace Stores

/-- What a sub-step of an operation writes. -/
def write (s : Stores V) (e : Env V) (op : MemoryOp) : SubStep → Stores V
  | .addRow => (op.row e).elim s s.addRow
  | .initMetadata =>
    match op with
    | .toolStore id content memoryType _ | .httpStore id content memoryType _ =>
      s.setMetadata id (some ((s.metadata id).getD ⟨(chooseType memoryType content).asStr, 0, e.now, e.now⟩))
    | _ => s
  | .updateType =>
    match op with
    | .toolUpdate id content memoryType =>
      s.setMetadata id ((s.metadata id).map ({ · with memoryType := (chooseType memoryType content).asStr }))
    | _ => s
  | .deleteRows => s.removeRows op.id
  | .deleteEdges => s.removeEdges op.id
  | .deleteMetadata => s.setMetadata op.id none
  | .available | .embed | .recordBatch | .openForAdd | .openForDelete => s

/-- Two memories are related in this way. -/
def HasEdge (s : Stores V) (sourceId targetId : String) (t : EdgeType) : Prop :=
  ∃ edge ∈ s.edges, edge.sourceId = sourceId ∧ edge.targetId = targetId ∧ edge.relationType = t.asStr

instance (s : Stores V) (sourceId targetId : String) (t : EdgeType) : Decidable (s.HasEdge sourceId targetId t) :=
  Multiset.decidableExistsMultiset

/-- Create or update an edge between two memories: a row, unless there is one. -/
def createEdge (s : Stores V) (id : ℕ) (sourceId targetId : String) (t : EdgeType) : Stores V :=
  if s.HasEdge sourceId targetId t then s
  else { s with edges := ⟨id, sourceId, targetId, t.asStr⟩ ::ₘ s.edges }

end Stores

/-! ## Calls -/

/-- A call of a memory tool or of the HTTP API. -/
inductive MemoryCall
  | operation (op : MemoryOp)
  | toolCreateEdge (sourceId targetId relationType : String)
  | httpCreateEdge (sourceId targetId relationType : String)
  deriving DecidableEq, Repr

inductive CallReply
  | reply (r : Reply)
  /-- `{"created": true}` -/
  | created
  deriving DecidableEq, Repr

inductive CallStep
  | sub (p : SubStep)
  | createEdge (sourceId targetId : String) (t : EdgeType)
  deriving DecidableEq, Repr

namespace MemoryCall

/-- The sub-steps of a call, or the reply to a relation type that does not exist. -/
def start : MemoryCall → Except CallReply (List CallStep)
  | .operation op => .ok (op.program.map .sub)
  | .toolCreateEdge sourceId targetId relationType =>
    match EdgeType.fromStr relationType with
    | some t => .ok [.createEdge sourceId targetId t]
    | none => .error (.reply (.toolError ("invalid relation type '" ++ relationType ++
        "' — must be one of: related_to, supersedes, contradicts, caused_by, part_of")))
  | .httpCreateEdge sourceId targetId relationType =>
    match EdgeType.fromStr relationType with
    | some t => .ok [.createEdge sourceId targetId t]
    | none => .error (.reply (.jsonError ("invalid relation_type '" ++ relationType ++ "'")))

def context (call : MemoryCall) : CallStep → Option String
  | .sub p =>
    match call with
    | .operation op => op.context p
    | _ => none
  | .createEdge .. => some "failed to create edge"

def drops (call : MemoryCall) : CallStep → Bool
  | .sub p =>
    match call with
    | .operation op => op.drops p
    | _ => false
  | .createEdge .. => false

def success : MemoryCall → CallReply
  | .operation op => .reply op.success
  | .toolCreateEdge sourceId targetId relationType =>
    .reply (.text ("Created edge: " ++ sourceId ++ " --[" ++ relationType ++ "]--> " ++ targetId))
  | .httpCreateEdge .. => .created

def failure (call : MemoryCall) (text : String) : CallReply :=
  match call with
  | .operation op => .reply (op.failure text)
  | .toolCreateEdge .. => .reply (.toolError text)
  | .httpCreateEdge .. => .reply (.jsonError text)

end MemoryCall

/-- Where a call stands. -/
inductive CallState (V : Type)
  | absent
  | running (call : MemoryCall) (env : Env V) (left : List CallStep)
  | returned (call : MemoryCall) (reply : CallReply)

structure MemoryCalls (V : Type) where
  stores : Stores V
  /-- the last id of an edge -/
  edgeSeq : ℕ
  call : ℕ → CallState V

namespace MemoryCalls

def init (stores : Stores V) (edgeSeq : ℕ) : MemoryCalls V := ⟨stores, edgeSeq, fun _ => .absent⟩

inductive Action (V : Type)
  /-- a call, with the time and the embedding that it is going to get -/
  | start (k : ℕ) (call : MemoryCall) (now : String) (vector : V)
  /-- the next sub-step of a call succeeds, or fails with this text -/
  | sub (k : ℕ) (result : Except String Unit)

def setCall (m : MemoryCalls V) (k : ℕ) (c : CallState V) : MemoryCalls V :=
  { m with call := Function.update m.call k c }

/-- What a sub-step writes. -/
def write (m : MemoryCalls V) (call : MemoryCall) (e : Env V) : CallStep → MemoryCalls V
  | .sub p =>
    match call with
    | .operation op => { m with stores := m.stores.write e op p }
    | _ => m
  | .createEdge sourceId targetId t =>
    { m with stores := m.stores.createEdge (m.edgeSeq + 1) sourceId targetId t, edgeSeq := m.edgeSeq + 1 }

/-- Go on with the sub-steps that are left. -/
def proceed (m : MemoryCalls V) (k : ℕ) (call : MemoryCall) (e : Env V) : List CallStep → MemoryCalls V
  | [] => m.setCall k (.returned call call.success)
  | left => m.setCall k (.running call e left)

/-- One step of a call. -/
def step (m : MemoryCalls V) : Action V → Option (MemoryCalls V)
  | .start k call now vector =>
    match m.call k with
    | .absent =>
      match call.start with
      | .ok left => some (m.setCall k (.running call ⟨now, vector, none⟩ left))
      | .error reply => some (m.setCall k (.returned call reply))
    | _ => none
  | .sub k result =>
    match m.call k with
    | .running call e (p :: rest) =>
      match result with
      | .ok () => some ((m.write call e p).proceed k call e rest)
      | .error text =>
        if call.drops p then some (m.proceed k call e rest)
        else some (m.setCall k (.returned call (call.failure ((call.context p).getD text))))
    | _ => none

end MemoryCalls

end Auxlry

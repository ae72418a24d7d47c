import Auxlry.Spec.HybridSearch

/-!
# Calls that search memories

An agent searches with its tool, anyone else over HTTP. Both parse the type that they are
given, fill in what is left out, and show the results of one hybrid search.
-/

namespace Auxlry

variable {V K : Type}

/-- The arguments of a search; those that are left out have a default. -/
inductive SearchCall (K : Type)
  | tool (memoryType : Option String) (limit : Option UInt64)
  | http (memoryType : Option String) (limit : Option UInt64) (minImportance : Option (Threshold K))
    (graphDepth : Option UInt8)

inductive SearchReply (K : Type)
  /-- the text of the tool -/
  | found (results : List (SearchResult K))
  /-- `{"results"}` -/
  | json (results : List (SearchResult K))
  | toolError (message : String)
  /-- `{"error"}` -/
  | jsonError (message : String)

namespace SearchReply

def isError : SearchReply K → Bool
  | .toolError _ | .jsonError _ => true
  | .found _ | .json _ => false

def results : SearchReply K → List (SearchResult K)
  | .found results | .json results => results
  | .toolError _ | .jsonError _ => []

/-- The text of the tool; a score is shown with two digits. -/
def text (showScore : K → String) (results : List (SearchResult K)) : String :=
  if results.isEmpty then "No relevant memories found."
  else "\n".intercalate (results.map fun r =>
    "[" ++ r.id ++ "] (" ++ r.memoryType.asStr ++ ", score: " ++ showScore r.score ++ ") " ++ r.content)

end SearchReply

namespace SearchCall

def memoryType : SearchCall K → Option String
  | .tool memoryType _ | .http memoryType .. => memoryType

/-- The tool has a memory store, the HTTP API may be without one. -/
def hasStore (available : Bool) : SearchCall K → Bool
  | .tool .. => true
  | .http .. => available

def reply : SearchCall K → Except String (List (SearchResult K)) → SearchReply K
  | .tool .., .ok results => .found results
  | .tool .., .error text => .toolError text
  | .http .., .ok results => .json results
  | .http .., .error text => .jsonError text

variable [Field K] [LinearOrder K] {s : Stores V}

/-- The parameters of the search; a type that does not exist is no filter. -/
def params : SearchCall K → SearchParams K
  | .tool memoryType limit => ⟨limit.getD 5, memoryType.bind MemoryType.fromStr, .finite 0, 1⟩
  | .http memoryType limit minImportance graphDepth =>
    ⟨limit.getD 10, memoryType.bind MemoryType.fromStr, minImportance.getD (.finite 0), graphDepth.getD 1⟩

/-- One call. -/
def run (available : Bool) (e : SearchEnv K s) (order : HashOrder (K × SearchResult K)) (call : SearchCall K) :
    Stores V × SearchReply K :=
  if call.hasStore available then
    let (s', results) := e.hybridSearch order call.params
    (s', call.reply results)
  else (s, .jsonError "memory store not available")

end SearchCall

end Auxlry

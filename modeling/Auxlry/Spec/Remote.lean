import Auxlry.Spec.Protocol
import Mathlib.Logic.Function.Basic

/-!
# Operations on a remote node

`RemoteNode` sends each operation as a message on a stream of its own and reads the
answer from the response. The peer dispatches messages to its local node, in the protocol
loop of a node or in the handler of the core. What the local node answers is arbitrary:
an `Executor` says what its operations return at some moment. Streams deliver what is
sent on them.

How a message prints in `unexpected message` is a parameter, `debug`.
-/

namespace Auxlry

/-- An operation of a node, with its arguments. -/
inductive NodeCall
  | runCommand (command : String) (cwd : Option String)
  | readFile (path : String)
  | writeFile (path content : String)
  | listDir (path : String)
  | searchFiles (pattern : String) (root : Option String)
  deriving DecidableEq, Repr

/-- What an operation returns. -/
def NodeCall.Result : NodeCall → Type
  | .runCommand .. => ExecResult
  | .readFile .. => FileContent
  | .writeFile .. => Unit
  | .listDir .. => List DirEntry
  | .searchFiles .. => List String

/-- What the operations of a node return, at some moment. -/
abbrev Executor := (call : NodeCall) → Except String call.Result

/-- A message to the peer, and what is made of its response. -/
structure Request (α : Type) where
  message : ProtocolMessage
  response : ProtocolMessage → Except String α

/-! ## The side that calls -/

namespace RemoteNode

/-- Accept one kind of response. -/
def answer {α : Type} (accept : ProtocolMessage → Option α) (msg : ProtocolMessage) : Except String α :=
  match accept msg with
  | some v => .ok v
  | none =>
    match msg with
    | .error message => .error ("remote error: " ++ message)
    | _ => .error "unexpected response"

def runCommand (command : String) (cwd : Option String) : Request ExecResult where
  message := .runCommand command cwd
  response := answer fun | .runCommandResult result => some result | _ => none

def readFile (path : String) : Request FileContent where
  message := .readFile path
  response := answer fun | .readFileResult content => some content | _ => none

def writeFile (path content : String) : Request Unit where
  message := .writeFile path content
  response
    | .writeFileResult success error =>
      if success then .ok () else .error ("remote write error: " ++ error.getD "")
    | .error message => .error ("remote error: " ++ message)
    | _ => .error "unexpected response"

def listDir (path : String) : Request (List DirEntry) where
  message := .listDir path
  response := answer fun | .listDirResult entries => some entries | _ => none

def searchFiles (pattern : String) (root : Option String) : Request (List String) where
  message := .searchFiles pattern root
  response := answer fun | .searchFilesResult paths => some paths | _ => none

/-- The request of an operation. -/
def request : (call : NodeCall) → Request call.Result
  | .runCommand command cwd => runCommand command cwd
  | .readFile path => readFile path
  | .writeFile path content => writeFile path content
  | .listDir path => listDir path
  | .searchFiles pattern root => searchFiles pattern root

end RemoteNode

/-! ## The side that serves -/

/-- Process a single protocol message in the core and return the response. -/
def handleMessage (debug : ProtocolMessage → String) (node : Executor) : ProtocolMessage → ProtocolMessage
  | .ping => .pong
  | .runCommand command cwd =>
    match node (.runCommand command cwd) with
    | .ok result => .runCommandResult result
    | .error e => .error e
  | .readFile path =>
    match node (.readFile path) with
    | .ok content => .readFileResult content
    | .error e => .error e
  | .writeFile path content =>
    match node (.writeFile path content) with
    | .ok () => .writeFileResult true none
    | .error e => .writeFileResult false (some e)
  | .listDir path =>
    match node (.listDir path) with
    | .ok entries => .listDirResult entries
    | .error e => .error e
  | .searchFiles pattern root =>
    match node (.searchFiles pattern root) with
    | .ok paths => .searchFilesResult paths
    | .error e => .error e
  | other => .error ("unexpected message: " ++ debug other)

/-- The response to a message in the protocol loop of a node. -/
def runProtocolLoop (debug : ProtocolMessage → String) (localNode : Executor) :
    ProtocolMessage → ProtocolMessage
  | .ping => .pong
  | .runCommand command cwd =>
    match localNode (.runCommand command cwd) with
    | .ok r => .runCommandResult r
    | .error e => .error e
  | .readFile path =>
    match localNode (.readFile path) with
    | .ok c => .readFileResult c
    | .error e => .error e
  | .writeFile path content =>
    match localNode (.writeFile path content) with
    | .ok () => .writeFileResult true none
    | .error e => .writeFileResult false (some e)
  | .listDir path =>
    match localNode (.listDir path) with
    | .ok entries => .listDirResult entries
    | .error e => .error e
  | .searchFiles pattern root =>
    match localNode (.searchFiles pattern root) with
    | .ok paths => .searchFilesResult paths
    | .error e => .error e
  | other => .error ("unexpected message: " ++ debug other)

/-- Which side serves. -/
inductive Dispatcher
  | core
  | node
  deriving DecidableEq, Repr

def Dispatcher.dispatch (debug : ProtocolMessage → String) : Dispatcher → Executor → ProtocolMessage → ProtocolMessage
  | .core => handleMessage debug
  | .node => runProtocolLoop debug

/-! ## Streams -/

/-- Where a request stands, with what the local node returned. -/
inductive Exchange (call : NodeCall)
  | sent
  | answered (returned : Except String call.Result) (response : ProtocolMessage)
  | done (returned result : Except String call.Result)

/-- The streams of a connection. -/
abbrev Streams := ℕ → Option ((call : NodeCall) × Exchange call)

namespace Streams

def init : Streams := fun _ => none

inductive Action
  | open (stream : ℕ) (call : NodeCall)
  /-- the peer takes the message off the stream, and its local node answers -/
  | serve (stream : ℕ) (node : Executor)
  | receive (stream : ℕ)

/-- One step of a connection whose peer dispatches as `d`. -/
def step (debug : ProtocolMessage → String) (d : Dispatcher) (s : Streams) : Action → Option Streams
  | .open stream call =>
    match s stream with
    | none => some (Function.update s stream (some ⟨call, .sent⟩))
    | some _ => none
  | .serve stream node =>
    match s stream with
    | some ⟨call, .sent⟩ =>
      let response := d.dispatch debug node (RemoteNode.request call).message
      some (Function.update s stream (some ⟨call, .answered (node call) response⟩))
    | _ => none
  | .receive stream =>
    match s stream with
    | some ⟨call, .answered returned response⟩ =>
      let result := (RemoteNode.request call).response response
      some (Function.update s stream (some ⟨call, .done returned result⟩))
    | _ => none

end Streams

end Auxlry

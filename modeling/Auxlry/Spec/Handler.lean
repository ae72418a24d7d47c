import Auxlry.Spec.Database
import Auxlry.Spec.LocalNode
import Auxlry.Spec.Protocol
import Mathlib.Logic.Function.Basic

/-!
# Connections of the core

Every inbound connection is handled by a task of its own. `step` is one step of one
task, between two points where it awaits; tasks take steps in any order. What a task
cannot decide is in the action: the message received, the token generated, and whether
a query, a reply or the creation of a directory succeeds.
-/

namespace Auxlry

open Posix

/-- What runs operations under a registered name. -/
inductive NodeExecutor
  | localNode (node : LocalNode)
  /-- a `RemoteNode`: a node name and its connection -/
  | remoteNode (name : String) (conn : ℕ)
  deriving DecidableEq, Repr

/-- Shared registry of all available nodes (local + connected remotes). -/
def NodeRegistry : Type := String → Option NodeExecutor

namespace NodeRegistry

def register (r : NodeRegistry) (name : String) (node : NodeExecutor) : NodeRegistry :=
  Function.update r name (some node)

def unregister (r : NodeRegistry) (name : String) : NodeRegistry := Function.update r name none

def get (r : NodeRegistry) (name : String) : Option NodeExecutor := r name

end NodeRegistry

/-- What the rest of the system sees of the connections. -/
inductive Effect
  | reply (conn : ℕ) (msg : ProtocolMessage)
  | close (conn code : ℕ) (reason : String)
  | nodeConnected (node : String)
  | nodeDisconnected (node : String)
  deriving DecidableEq, Repr

/-- Where the task of a connection stands. -/
inductive Task
  | absent
  /-- waits for the first message -/
  | accepted
  /-- the link code was valid and is used up -/
  | consumed (name : String)
  /-- the token is stored -/
  | stored (name token : String)
  /-- the token was found -/
  | found (name : String)
  /-- about to send this reply, and to fail -/
  | rejecting (reply : ProtocolMessage)
  | authenticated (name : String)
  | registered (name : String)
  /-- the connection is announced on the event bus -/
  | announced (name : String)
  /-- in the protocol loop, serving this node -/
  | serving (name : String) (node : LocalNode)
  /-- out of the protocol loop -/
  | left (name : String)
  | unregistered (name : String)
  | returned
  deriving DecidableEq, Repr

structure Core where
  now : ℕ
  db : Database
  registry : NodeRegistry
  workspace : String
  task : ℕ → Task
  log : List Effect

/-- The local node of the daemon, from the name and mode of the first configured node. -/
def daemonNode (workspace : String) (nodeCfg : Option (String × NodeMode)) : LocalNode :=
  match nodeCfg with
  | some (name, mode) => ⟨name, mode, some workspace⟩
  | none => ⟨"local", .workspace, some workspace⟩

/-- The core when its QUIC server starts: the local node is registered. -/
def Core.init (workspace : String) (nodeCfg : Option (String × NodeMode)) (db : Database) (now : ℕ) :
    Core where
  now := now
  db := db
  registry := NodeRegistry.register (fun _ => none) (daemonNode workspace nodeCfg).nodeName
    (.localNode (daemonNode workspace nodeCfg))
  workspace := workspace
  task := fun _ => .absent
  log := []

inductive CoreAction
  | tick
  /-- `core link` -/
  | storePendingCode (code : String)
  | accept (conn : ℕ)
  /-- the stream or the first message does not arrive -/
  | noMessage (conn : ℕ)
  /-- the first message arrives; the query it leads to succeeds or not -/
  | receive (conn : ℕ) (msg : ProtocolMessage) (queryOk : Bool)
  | storeToken (conn : ℕ) (token : String) (queryOk : Bool)
  | sendReply (conn : ℕ) (sendOk : Bool)
  | register (conn : ℕ)
  | publishConnected (conn : ℕ)
  | createWorkspace (conn : ℕ) (dirOk : Bool)
  /-- `accept_bi` fails: the peer closed the connection, or it timed out -/
  | leave (conn : ℕ)
  | unregister (conn : ℕ)
  | publishDisconnected (conn : ℕ)
  deriving DecidableEq, Repr

namespace Core

def setTask (s : Core) (c : ℕ) (t : Task) : Core := { s with task := Function.update s.task c t }

def emit (s : Core) (e : Effect) : Core := { s with log := s.log ++ [e] }

/-- `authenticate` returned an error: close the connection and return. -/
def refuse (s : Core) (c : ℕ) : Core := (s.emit (.close c 1 "auth failed")).setTask c .returned

/-- The first message of a connection. A failed query counts as an invalid code, and as
an unknown token. -/
def authenticate (s : Core) (c : ℕ) (msg : ProtocolMessage) (queryOk : Bool) : Core :=
  match msg with
  | .authRequest code name =>
    let (existed, db) := if queryOk then s.db.consumePendingCode code else (false, s.db)
    { s with db := db }.setTask c
      (if existed then .consumed name else .rejecting (.authResponse false none))
  | .tokenAuth token =>
    match if queryOk then s.db.findNodeByToken token else none with
    | some name => s.setTask c (.found name)
    | none => s.setTask c (.rejecting (.tokenAuthResponse false))
  | _ => s.setTask c (.rejecting (.error "expected AuthRequest or TokenAuth"))

/-- The reply that `authenticate` is about to send, and the name it then returns, if any. -/
def pendingReply : Task → Option (ProtocolMessage × Option String)
  | .stored name token => some (.authResponse true (some token), some name)
  | .found name => some (.tokenAuthResponse true, some name)
  | .rejecting reply => some (reply, none)
  | _ => none

/-- One step of the core. -/
def step (s : Core) : CoreAction → Option Core
  | .tick => some { s with now := s.now + 1 }
  | .storePendingCode code => (s.db.storePendingCode code s.now).map ({ s with db := · })
  | .accept c =>
    match s.task c with
    | .absent => some (s.setTask c .accepted)
    | _ => none
  | .noMessage c =>
    match s.task c with
    | .accepted => some (s.refuse c)
    | _ => none
  | .receive c msg queryOk =>
    match s.task c with
    | .accepted => some (s.authenticate c msg queryOk)
    | _ => none
  | .storeToken c token queryOk =>
    match s.task c with
    | .consumed name =>
      if queryOk then some ({ s with db := s.db.storeNodeToken name token }.setTask c (.stored name token))
      else some (s.refuse c)
    | _ => none
  | .sendReply c sendOk =>
    match pendingReply (s.task c) with
    | some (reply, name) =>
      if sendOk then
        match name with
        | some name => some ((s.emit (.reply c reply)).setTask c (.authenticated name))
        | none => some ((s.emit (.reply c reply)).refuse c)
      else some (s.refuse c)
    | none => none
  | .register c =>
    match s.task c with
    | .authenticated name =>
      some ({ s with registry := s.registry.register name (.remoteNode name c) }.setTask c (.registered name))
    | _ => none
  | .publishConnected c =>
    match s.task c with
    | .registered name => some ((s.emit (.nodeConnected name)).setTask c (.announced name))
    | _ => none
  | .createWorkspace c dirOk =>
    match s.task c with
    | .announced name =>
      if dirOk then
        some (s.setTask c (.serving name ⟨name, .workspace, some (join s.workspace name)⟩))
      else some ((s.emit (.close c 2 "internal error")).setTask c .returned)
    | _ => none
  | .leave c =>
    match s.task c with
    | .serving name _ => some (s.setTask c (.left name))
    | _ => none
  | .unregister c =>
    match s.task c with
    | .left name =>
      some ({ s with registry := s.registry.unregister name }.setTask c (.unregistered name))
    | _ => none
  | .publishDisconnected c =>
    match s.task c with
    | .unregistered name => some ((s.emit (.nodeDisconnected name)).setTask c .returned)
    | _ => none

end Core

end Auxlry

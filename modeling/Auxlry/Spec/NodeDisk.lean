import Auxlry.Spec.LocalNode
import Auxlry.Spec.Proxy

/-!
# A connection and the disk behind it

The node that serves a connection works on the disk of its machine: what an operation returns
depends on the disk, and a write or a command leaves another one. Anything else on the machine
may change the disk at any time. What a command does is arbitrary; nothing removes the working
directory of the node.

`history` is bookkeeping: the operations and the changes from outside, each with the disk
before it.
-/

namespace Auxlry

open Posix

/-- The tree changes, and the process keeps its working directory. -/
def Disk.change (d : Disk) (fs : Fs) : Option Disk :=
  if h : fs.IsDir d.cwd then some ⟨fs, d.cwd, h⟩ else none

/-- A node on its machine: what the kernel lists, what a search finds, and how a path is
written. -/
structure NodeHost where
  node : LocalNode
  listing : LocalNode.Listing
  glob : LocalNode.Glob
  text : Path → String

/-- The tree that a command leaves when `sh -c` runs it in a directory, and what it returns. -/
abbrev ShellEffect := Loc → String → Option (Fs × ExecResult)

def ShellEffect.shell (sh : ShellEffect) : LocalNode.Shell := fun l command => (sh l command).map Prod.snd

namespace NodeHost

/-- What the operations return, on a disk. -/
def executor (m : NodeHost) (sh : ShellEffect) (d : Disk) : Executor
  | .runCommand command cwd => (m.node.runCommand sh.shell d command cwd).result
  | .readFile path => (m.node.readFile d path).result
  | .writeFile path content => (m.node.writeFile d path content).result
  | .listDir path => (m.node.listDir m.listing d path).result
  | .searchFiles pattern root => (m.node.searchFiles m.glob d pattern root).map (List.map m.text)

/-- The tree that an operation leaves. -/
def leaves (m : NodeHost) (sh : ShellEffect) (d : Disk) : NodeCall → Fs
  | .runCommand command cwd =>
    match (m.node.runCommand sh.shell d command cwd).opened.bind (sh · command) with
    | some (fs, _) => fs
    | none => d.fs
  | .writeFile path content => (m.node.writeFile d path content).fs
  | .readFile _ | .listDir _ | .searchFiles _ _ => d.fs

end NodeHost

/-- An operation of the node, or a change from outside, and the disk before it. -/
structure Happening where
  disk : Disk
  operation : Option Executed

/-- A connection, and the disk of the machine that serves it. -/
structure Served where
  proxy : Proxy
  disk : Disk
  history : List Happening

namespace Served

def init (d : Disk) : Served := ⟨.init, d, []⟩

inductive Action
  /-- a step of the connection, the node doing nothing -/
  | connection (action : Proxy.Action)
  /-- the peer handles the message it has read -/
  | handle (sh : ShellEffect)
  /-- something else changes the disk -/
  | outside (fs : Fs)

/-- One step of a connection to the machine `m`, or of something else there. -/
def step (codec : Bincode) (debug : ProtocolMessage → String) (d : Dispatcher) (m : NodeHost) (s : Served) :
    Action → Option Served
  | .connection (.handle _) => none
  | .connection action => (Proxy.step codec debug d s.proxy action).map fun proxy => { s with proxy := proxy }
  | .handle sh =>
    match s.proxy.phase with
    | .handling i msg =>
      (Proxy.step codec debug d s.proxy (.handle (m.executor sh s.disk))).bind fun proxy =>
        match msg.asked with
        | none => some { s with proxy := proxy }
        | some call => (s.disk.change (m.leaves sh s.disk call)).map fun disk =>
          { proxy := proxy
            disk := disk
            history := s.history ++ [⟨s.disk, some ⟨i, call, m.executor sh s.disk call⟩⟩] }
    | _ => none
  | .outside fs => (s.disk.change fs).map fun disk =>
    { s with disk := disk, history := s.history ++ [⟨s.disk, none⟩] }

end Served

end Auxlry

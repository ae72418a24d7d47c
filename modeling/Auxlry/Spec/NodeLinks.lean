import Auxlry.Spec.Peers
import Auxlry.Spec.Text

/-!
# Linking and starting nodes on one machine

`node link` and `node start` are processes of one machine, any number of them at a time,
next to the cores and to what runs on other machines. A link saves the token that it got,
and then the address of its core; a start reads the two files, and connects to that core
with that token, again and again. The name of the node is in the command, and the files
are the same for all names. A file is written as a whole or, if that fails, not at all.
-/

namespace Auxlry

/-- The files of a machine that links write and starts read. -/
structure LinkFiles where
  tokenFile : Option String
  coreAddrFile : Option String
  deriving DecidableEq, Repr

namespace LinkFiles

/-- The contents of a file, and the errors if it cannot be read or is empty. -/
def readTrimmed (missing empty : String) : Option String → Except String String
  | none => .error missing
  | some contents => if trim contents = "" then .error empty else .ok (trim contents)

def readTokenFile (f : LinkFiles) : Except String String :=
  readTrimmed "no token found — run `auxlry node link` first"
    "token file is empty — run `auxlry node link` first" f.tokenFile

def readCoreAddr (f : LinkFiles) : Except String String :=
  readTrimmed "no core address found — run `auxlry node link` first"
    "core addr file is empty — run `auxlry node link` first" f.coreAddrFile

end LinkFiles

/-- The cores that listen at an address. An address parses only without blanks around it. -/
structure Addresses where
  core : String → Option ℕ
  spelled : ∀ addr k, core addr = some k → addr ≠ "" ∧ trim addr = addr

/-- Where a command of the machine stands. -/
inductive NodeProc
  | absent
  /-- `link`, which waits for its token and saves it -/
  | linking (name addr : String) (core conn : ℕ)
  /-- `link`, about to save the address -/
  | tokenSaved (name addr : String)
  /-- `start`, about to read the address -/
  | tokenRead (name token : String)
  /-- `start`, with its last connection -/
  | started (name token : String) (core : ℕ) (conn : Option ℕ)
  | exited
  deriving DecidableEq, Repr

/-- The cores with all their peers, and one machine. -/
structure NodeMachine where
  net : ℕ → PeerNet
  files : LinkFiles
  proc : ℕ → NodeProc

namespace NodeMachine

/-- A machine on which nothing was linked. -/
def init (net : ℕ → PeerNet) : NodeMachine := ⟨net, ⟨none, none⟩, fun _ => .absent⟩

inductive Action
  /-- a step of a core or of a peer; the peers of other machines open their connections so -/
  | net (core : ℕ) (action : PeerNet.Action)
  /-- `node link` connects and sends its code -/
  | link (pid : ℕ) (name addr code : String) (conn : ℕ)
  | saveToken (pid : ℕ) (ok : Bool)
  | saveAddr (pid : ℕ) (ok : Bool)
  /-- `node start` reads the token -/
  | start (pid : ℕ) (name : String)
  | readAddr (pid : ℕ)
  /-- `node start` connects and sends its token -/
  | connect (pid conn : ℕ)
  | exit (pid : ℕ)
  deriving DecidableEq, Repr

def setNet (s : NodeMachine) (k : ℕ) (net : PeerNet) : NodeMachine :=
  { s with net := Function.update s.net k net }

def setProc (s : NodeMachine) (pid : ℕ) (p : NodeProc) : NodeMachine :=
  { s with proc := Function.update s.proc pid p }

/-- `start` after it has read the token. -/
def afterToken (s : NodeMachine) (name : String) : NodeProc :=
  match s.files.readTokenFile with
  | .ok token => .tokenRead name token
  | .error _ => .exited

/-- `start` after it has read the address; without a core there it never connects. -/
def afterAddr (A : Addresses) (s : NodeMachine) (name token : String) : NodeProc :=
  match s.files.readCoreAddr with
  | .ok addr =>
    match A.core addr with
    | some k => .started name token k none
    | none => .exited
  | .error _ => .exited

/-- The last connection of a start is given up. -/
def gaveUp (s : NodeMachine) (k : ℕ) : Option ℕ → Bool
  | none => true
  | some c =>
    match (s.net k).peer c with
    | .start _ .ended => true
    | _ => false

/-- One step of a core, of a peer, or of a command of the machine. -/
def step (A : Addresses) (s : NodeMachine) : Action → Option NodeMachine
  | .net k a => ((s.net k).step a).map (s.setNet k)
  | .link pid name addr code c =>
    match s.proc pid, A.core addr with
    | .absent, some k =>
      ((s.net k).step (.openLink c code name)).map fun net =>
        (s.setNet k net).setProc pid (.linking name addr k c)
    | _, _ => none
  | .saveToken pid ok =>
    match s.proc pid with
    | .linking name addr k c =>
      match (s.net k).peer c with
      | .link _ _ (.saving token) =>
        if ok then
          some ({ s with files := { s.files with tokenFile := some token } }.setProc pid (.tokenSaved name addr))
        else some (s.setProc pid .exited)
      | _ => none
    | _ => none
  | .saveAddr pid ok =>
    match s.proc pid with
    | .tokenSaved _ addr =>
      if ok then some ({ s with files := { s.files with coreAddrFile := some addr } }.setProc pid .exited)
      else some (s.setProc pid .exited)
    | _ => none
  | .start pid name =>
    match s.proc pid with
    | .absent => some (s.setProc pid (s.afterToken name))
    | _ => none
  | .readAddr pid =>
    match s.proc pid with
    | .tokenRead name token => some (s.setProc pid (s.afterAddr A name token))
    | _ => none
  | .connect pid c =>
    match s.proc pid with
    | .started name token k last =>
      if s.gaveUp k last then
        ((s.net k).step (.openStart c token)).map fun net =>
          (s.setNet k net).setProc pid (.started name token k (some c))
      else none
    | _ => none
  | .exit pid =>
    match s.proc pid with
    | .absent | .exited => none
    | _ => some (s.setProc pid .exited)

end NodeMachine

end Auxlry

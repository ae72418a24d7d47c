import Mathlib.Data.Nat.Notation
import Mathlib.Logic.Function.Basic

/-!
# Starting and stopping the core

`core start`, `core stop`, `core restart` and `core status` are processes of their own,
and so is the daemon. They share the PID file and look each other up in the process
table. `CoreMachine.step` is one step of one of them: reading the PID file, testing
whether a process runs, removing or writing the file, a signal, a poll of the wait for
the daemon's end. Nothing keeps one command from running between the steps of another.

The last three fields are bookkeeping: the processes at the time a start read the PID
file, the starts that found nothing running (the processes when they read the file and
when they tested it), and the stops that returned `Ok` (the processes then).
-/

namespace Auxlry

/-- What a process is about to do. -/
inductive Proc
  /-- there is no process -/
  | gone
  /-- another program -/
  | other
  /-- `start`: read the PID file -/
  | startRead (foreground : Bool)
  /-- `start`: test whether the process in the file runs -/
  | startCheck (foreground : Bool) (pid : ℕ)
  /-- `start`: remove a stale file -/
  | startStale (foreground : Bool)
  /-- `start`: spawn a `start` in the foreground -/
  | startSpawn
  /-- the daemon: set everything up, and write the PID file -/
  | starting
  /-- bind the API port -/
  | binding
  | serving
  /-- shutting down: no new connections, and those that are open are served to their end -/
  | draining
  /-- publish the stop, wait, and remove the PID file -/
  | cleaning
  /-- `stop`, followed by a `start` if this is a restart -/
  | stopRead (restart : Option Bool)
  | stopCheck (restart : Option Bool) (pid : ℕ)
  | stopSignal (restart : Option Bool) (pid : ℕ)
  /-- `stop`: so many polls have found the process running -/
  | stopWait (restart : Option Bool) (pid polls : ℕ)
  | stopRemove (restart : Option Bool)
  | restartRead (foreground : Bool)
  | restartCheck (foreground : Bool) (pid : ℕ)
  | statusRead
  | statusCheck (pid : ℕ)
  /-- `stop` or `status`: remove a stale file, and return -/
  | stale
  /-- the program has returned -/
  | returned
  deriving DecidableEq, Repr

/-- A daemon that is up: from the bind until it has removed its PID file. -/
def Proc.up : Proc → Bool
  | .serving | .draining | .cleaning => true
  | _ => false

structure CoreMachine where
  procs : ℕ → Proc
  /-- the PID file -/
  corePid : Option ℕ
  /-- the daemon that listens on the API port -/
  listener : Option ℕ
  seen : ℕ → ℕ → Proc
  passes : List ((ℕ → Proc) × (ℕ → Proc))
  stops : List (ℕ → Proc)

/-- How often `stop` looks whether the process has ended. -/
def stopPolls : ℕ := 30

namespace CoreMachine

/-- No processes, and whatever a machine that went down has left in the PID file. -/
def init (corePid : Option ℕ) : CoreMachine := ⟨fun _ => .gone, corePid, none, fun _ _ => .gone, [], []⟩

inductive Command
  | start (foreground : Bool)
  | stop
  | restart (foreground : Bool)
  | status
  | other
  deriving DecidableEq, Repr

/-- What a command does first. -/
def Command.proc : Command → Proc
  | .start foreground => .startRead foreground
  | .stop => .stopRead none
  | .restart foreground => .restartRead foreground
  | .status => .statusRead
  | .other => .other

inductive Action
  /-- somebody runs a program -/
  | invoke (pid : ℕ) (cmd : Command)
  /-- the next step of a process; `ok` says whether what may fail succeeds -/
  | run (pid : ℕ) (ok : Bool)
  /-- a `start` in the background spawns its child -/
  | spawn (pid child : ℕ)
  /-- somebody sends `SIGTERM`, or presses Ctrl+C -/
  | terminate (pid : ℕ)
  /-- a process ends, whatever it is doing -/
  | die (pid : ℕ)
  deriving DecidableEq, Repr

/-- The process goes on with `p`; the port is free when its daemon no longer serves. -/
def become (s : CoreMachine) (pid : ℕ) (p : Proc) : CoreMachine :=
  { s with
    procs := Function.update s.procs pid p
    listener := if s.listener = some pid then none else s.listener }

/-- Signal 0 checks if the process exists. -/
def isProcessRunning (s : CoreMachine) (pid : ℕ) : Prop := s.procs pid ≠ .gone

instance (s : CoreMachine) (pid : ℕ) : Decidable (s.isProcessRunning pid) :=
  inferInstanceAs (Decidable (_ ≠ _))

/-- `SIGTERM`: handled by a daemon from when it serves, deadly before. -/
def terminate (s : CoreMachine) (pid : ℕ) : CoreMachine :=
  match s.procs pid with
  | .gone | .draining | .cleaning | .returned => s
  | .serving => s.become pid .draining
  | _ => s.become pid .gone

/-- What a start does that has found nothing running. -/
def launch (foreground : Bool) : Proc := if foreground then .starting else .startSpawn

/-- The file is removed, if it is there. -/
def removePid (s : CoreMachine) : CoreMachine := { s with corePid := none }

/-- The next step of a process. -/
def run (s : CoreMachine) (pid : ℕ) (ok : Bool) : Option CoreMachine :=
  match s.procs pid with
  | .gone | .other => none
  | .startRead foreground =>
    if ok then
      match s.corePid with
      | none => some ({ s with passes := (s.procs, s.procs) :: s.passes }.become pid (launch foreground))
      | some x =>
        some ({ s with seen := Function.update s.seen pid s.procs }.become pid (.startCheck foreground x))
    else some (s.become pid .returned)
  | .startCheck foreground x =>
    if s.isProcessRunning x then some (s.become pid .returned)
    else some ({ s with passes := (s.seen pid, s.procs) :: s.passes }.become pid (.startStale foreground))
  | .startStale foreground => some (s.removePid.become pid (launch foreground))
  | .startSpawn => if ok then none else some (s.become pid .returned)
  | .starting =>
    if ok then some ({ s with corePid := some pid }.become pid .binding) else some (s.become pid .returned)
  | .binding =>
    if ok then
      if s.listener = none then some { s.become pid .serving with listener := some pid } else none
    else some (s.become pid .returned)
  | .serving => if ok then none else some (s.become pid .returned)
  | .draining => some (s.become pid (if ok then .cleaning else .returned))
  | .cleaning => some (s.removePid.become pid .returned)
  | .stopRead restart =>
    if ok then
      match s.corePid with
      | none => some (s.become pid .returned)
      | some x => some (s.become pid (.stopCheck restart x))
    else some (s.become pid .returned)
  | .stopCheck restart x =>
    some (s.become pid (if s.isProcessRunning x then .stopSignal restart x else .stale))
  | .stopSignal restart x =>
    -- a file left behind may hold the pid that this process has got
    if x = pid then some (s.become pid .gone)
    else some ((s.terminate x).become pid (.stopWait restart x 0))
  | .stopWait restart x polls =>
    some (s.become pid (if s.isProcessRunning x ∧ polls + 1 < stopPolls then .stopWait restart x (polls + 1)
      else .stopRemove restart))
  | .stopRemove restart =>
    let s := { s.removePid with stops := s.procs :: s.stops }
    some (s.become pid (match restart with
      | none => .returned
      | some foreground => .startRead foreground))
  | .restartRead foreground =>
    if ok then
      match s.corePid with
      | none => some (s.become pid (.startRead foreground))
      | some x => some (s.become pid (.restartCheck foreground x))
    else some (s.become pid .returned)
  | .restartCheck foreground x =>
    some (s.become pid (if s.isProcessRunning x then .stopRead (some foreground) else .startRead foreground))
  | .statusRead =>
    if ok then
      match s.corePid with
      | none => some (s.become pid .returned)
      | some x => some (s.become pid (.statusCheck x))
    else some (s.become pid .returned)
  | .statusCheck x => some (s.become pid (if s.isProcessRunning x then .returned else .stale))
  | .stale => some (s.removePid.become pid .returned)
  | .returned => some (s.become pid .gone)

/-- One step of the machine. -/
def step (s : CoreMachine) : Action → Option CoreMachine
  | .invoke pid cmd => if s.procs pid = .gone then some (s.become pid cmd.proc) else none
  | .run pid ok => s.run pid ok
  | .spawn pid child =>
    if s.procs pid = .startSpawn ∧ s.procs child = .gone then
      some ((s.become pid .returned).become child (.startRead true))
    else none
  | .terminate pid => some (s.terminate pid)
  | .die pid => some (s.become pid .gone)

end CoreMachine

end Auxlry

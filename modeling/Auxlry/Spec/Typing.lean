import Auxlry.Spec.Interface

/-!
# Typing indicators

While the interface agent works on a batch it holds a handle, and a task beside it sends typing
indicators to the channel of the batch. The task looks at the flag of the handle before it
sends, and again before each of the short sleeps in between; the handle clears the flag when
it is dropped. An indicator takes its time to send, and may fail, which changes nothing.

The last fields of a task are bookkeeping: when the handle was made and dropped, and when
each indicator was sent, with whether the flag was set then.
-/

namespace Auxlry

/-- How long a sleep is, in milliseconds, and how many there are between two indicators. -/
def typingSleepMs : ℕ := 500
def typingSleeps : ℕ := 16

inductive TypingPhase
  /-- at the head of the loop -/
  | loop
  /-- the flag was set -/
  | send
  | sending
  /-- this many sleeps are over -/
  | slept (n : ℕ)
  | asleep (n wakeAt : ℕ)
  | ended
  deriving DecidableEq, Repr

structure TypingTask where
  interface : String
  channel : String
  active : Bool
  phase : TypingPhase
  startedAt : ℕ
  droppedAt : Option ℕ
  sent : List (ℕ × Bool)
  deriving DecidableEq, Repr

namespace TypingTask

/-- `TypingHandle::start`; without an adapter of that name there is no task. -/
def start (adapters : List String) (interface channel : String) (now : ℕ) : TypingTask :=
  ⟨interface, channel, true, if interface ∈ adapters then .loop else .ended, now, none, []⟩

/-- The handle is dropped. -/
def drop (t : TypingTask) (now : ℕ) : TypingTask := { t with active := false, droppedAt := some now }

/-- One step of the task. -/
def step (t : TypingTask) (now : ℕ) : Option TypingTask :=
  match t.phase with
  | .loop => some { t with phase := if t.active then .send else .ended }
  | .send => some { t with phase := .sending, sent := t.sent ++ [(now, t.active)] }
  | .sending => some { t with phase := .slept 0 }
  | .slept n =>
    if n = typingSleeps then some { t with phase := .loop }
    else some { t with phase := if t.active then .asleep n (now + typingSleepMs) else .ended }
  | .asleep n wakeAt => if wakeAt ≤ now then some { t with phase := .slept (n + 1) } else none
  | .ended => none

end TypingTask

/-- The interface agent with its handles: there is one for each batch it has processed. -/
structure Typing where
  agent : InterfaceAgent
  now : ℕ
  tasks : List TypingTask

namespace Typing

def init (adapters : List String) (now : ℕ) : Typing := ⟨.init adapters, now, []⟩

inductive Action
  | elapse (ms : ℕ)
  | agent (action : InterfaceAgent.Action)
  | task (i : ℕ)

/-- A handle is made when a batch is taken, and dropped when it is answered. -/
def handles (s : Typing) (agent : InterfaceAgent) : List TypingTask :=
  match s.agent.phase, agent.phase with
  | .idle, .processing r =>
    s.tasks ++ [.start s.agent.adapters r.batch.interface r.batch.channel s.now]
  | .responding _ _, .idle => s.tasks.modify (s.tasks.length - 1) (·.drop s.now)
  | _, _ => s.tasks

def step (s : Typing) : Action → Option Typing
  | .elapse ms => some { s with now := s.now + ms }
  | .agent action => (s.agent.step action).map fun agent => { s with agent := agent, tasks := s.handles agent }
  | .task i => (s.tasks[i]?.bind (·.step s.now)).map fun t => { s with tasks := s.tasks.set i t }

end Typing

end Auxlry

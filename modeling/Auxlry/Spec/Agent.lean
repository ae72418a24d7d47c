import Auxlry.Spec.Text
import Mathlib.Logic.Function.Basic

/-!
# Running agents and their signals

A synapse or an operator runs one task. `Agent.step` is one step of its `run`: the hook
checks before every completion call and every tool call, the calls, the end of a prompt
and what `run_inner` makes of it. A signal is put in the agent's watch cell, which holds
one value; the hook reads it and leaves it there. What the model answers, and whether a
prompt can be set up, is in the steps.

The last fields of an agent are bookkeeping, read only by themselves: the signals
accepted from outside, the steering messages that became the prompt, whether the hook
has read the value in the cell, whether it has checked the cell since a wrap-up was
accepted, and the calls made after that check.
-/

namespace Auxlry

/-- Signal that can be sent to a running agent. -/
inductive AgentSignal
  /-- no signal, the agent continues normally -/
  | none
  /-- gracefully terminate and return partial results -/
  | wrapUp
  /-- inject additional context; the agent restarts with the message appended -/
  | steer (msg : String)
  deriving DecidableEq, Repr

/-- Which kind of agent is running. -/
inductive AgentKind
  | synapse
  | operator
  deriving DecidableEq, Repr

/-- The name of a kind in messages. -/
def AgentKind.label : AgentKind → String
  | .synapse => "Synapse"
  | .operator => "Operator"

inductive HookAction
  | continue
  | terminate (reason : String)
  deriving DecidableEq, Repr

def checkSignal : AgentSignal → HookAction
  | .none => .continue
  | .wrapUp => .terminate "wrap-up"
  | .steer msg => .terminate ("steer:" ++ msg)

inductive AgentEvent
  | started (task : String)
  | interrupted (result : String)
  | steered (message : String)
  | completed (result : String)
  | failed (error : String)
  deriving DecidableEq, Repr

/-- The end of a prompt that no hook cancelled. -/
inductive PromptEnd
  | response (text : String)
  | maxTurns
  | error (message : String)
  deriving DecidableEq, Repr

/-- Where a run stands; `attempt` counts the retries of the prompt. -/
inductive AgentPhase
  | absent
  | started
  | registered
  /-- a prompt is set up -/
  | prompting (attempt : ℕ)
  /-- the hook has let a call pass -/
  | calling (attempt : ℕ)
  /-- a call has returned -/
  | called (attempt : ℕ)
  /-- the hook has cancelled the prompt; `lastText` is the last the assistant said -/
  | cancelled (reason lastText : String)
  /-- about to reset the signal and start over with a message -/
  | steering (msg : String)
  /-- the prompt has ended -/
  | ended (e : PromptEnd)
  /-- `run_inner` has returned, and dropped the receiver -/
  | returned
  /-- deregistered -/
  | gone
  deriving DecidableEq, Repr

structure Agent where
  kind : AgentKind
  task : String
  interface : Option String
  channel : Option String
  maxTurns : ℕ
  phase : AgentPhase
  /-- the watch cell -/
  slot : AgentSignal
  turnsUsed : ℕ
  remainingTurns : ℕ
  currentPrompt : String
  events : List AgentEvent
  result : Option (Except String String)
  accepted : List AgentSignal
  delivered : List String
  seen : Bool
  checked : Bool
  lateCalls : ℕ

/-- How often a prompt is retried after a transient error. -/
def maxRetries : ℕ := 2

/-- An error that is worth a retry. -/
def isTransient (message : String) : Bool :=
  containsText message.toList "JsonError".toList || containsText message.toList "ApiResponse".toList

namespace Agent

/-- A run that has not begun. -/
def init : Agent where
  kind := .synapse
  task := ""
  interface := none
  channel := none
  maxTurns := 0
  phase := .absent
  slot := .none
  turnsUsed := 0
  remainingTurns := 0
  currentPrompt := ""
  events := []
  result := none
  accepted := []
  delivered := []
  seen := false
  checked := false
  lateCalls := 0

/-- The agent is in the registry. -/
def inRegistry (a : Agent) : Bool :=
  match a.phase with
  | .absent | .started | .gone => false
  | _ => true

/-- The receiver of the watch cell is alive. -/
def receives (a : Agent) : Bool := a.inRegistry && a.phase ≠ .returned

/-- Send on the watch cell: the value replaces the one that is there. -/
def send (a : Agent) (sig : AgentSignal) : Option Agent :=
  if a.receives then some { a with slot := sig, seen := false } else none

/-- A signal from outside. -/
def receive (a : Agent) (sig : AgentSignal) : Option Agent :=
  (a.send sig).map fun a => { a with accepted := a.accepted ++ [sig] }

inductive Step
  | start (kind : AgentKind) (task : String) (interface channel : Option String) (maxTurns : ℕ)
  | register
  /-- render the template and create the client -/
  | prepare (error : Option String)
  /-- the hook, before a completion call or a tool call -/
  | check (tool : Bool) (lastText : String)
  | call
  | promptEnds (e : PromptEnd)
  /-- announce a steer -/
  | steer
  /-- reset the signal, and set up the next iteration -/
  | reset
  | conclude
  | deregister
  deriving DecidableEq, Repr

/-- The prompt that a hook check belongs to: a tool is only called after a completion. -/
def checkedAttempt (tool : Bool) : AgentPhase → Option ℕ
  | .prompting attempt => if tool then none else some attempt
  | .called attempt => some attempt
  | _ => none

/-- A hook check. -/
def check (a : Agent) (attempt : ℕ) (tool : Bool) (lastText : String) : Agent :=
  let a := { a with
    turnsUsed := if tool then a.turnsUsed else a.turnsUsed + 1
    checked := a.checked || a.accepted.contains .wrapUp }
  match checkSignal a.slot with
  | .continue => { a with phase := .calling attempt }
  | .terminate reason => { a with phase := .cancelled reason lastText, seen := true }

/-- What follows the end of a prompt: another attempt, after a transient error. -/
def afterPrompt (attempt : ℕ) : PromptEnd → AgentPhase
  | .error message =>
    if isTransient message ∧ attempt < maxRetries then .prompting (attempt + 1)
    else .ended (.error message)
  | e => .ended e

/-- Publish a last event and return from `run_inner`. -/
def leave (a : Agent) (e : AgentEvent) (result : Except String String) : Agent :=
  { a with phase := .returned, events := a.events ++ [e], result := some result }

def stepLimitText (a : Agent) : String :=
  match a.kind with
  | .synapse => "Synapse hit the step limit (" ++ toString a.maxTurns ++ ")."
  | .operator => "Operator hit the step limit (" ++ toString a.maxTurns ++
      ") — partial results may be available in the conversation."

/-- `run_inner` returns, unless the agent was steered. -/
def conclude (a : Agent) : Option Agent :=
  match a.phase with
  | .ended (.response text) => some (a.leave (.completed text) (.ok text))
  | .ended .maxTurns => some (a.leave (.completed a.stepLimitText) (.ok a.stepLimitText))
  | .ended (.error message) => some (a.leave (.failed message) (.error message))
  | .cancelled reason lastText =>
    if reason = "wrap-up" then
      let result := if lastText = "" then "Agent was wrapped up before producing output." else lastText
      some (a.leave (.interrupted result) (.ok result))
    else if (stripPrefix "steer:" reason).isSome then none
    else
      some (a.leave (.failed reason)
        (.ok (if lastText = "" then a.kind.label ++ " cancelled: " ++ reason else lastText)))
  | _ => none

/-- The message of a prompt that a steer has cancelled. -/
def steerMessage : AgentPhase → Option String
  | .cancelled reason _ => if reason = "wrap-up" then none else stripPrefix "steer:" reason
  | _ => none

/-- One step of a run. -/
def step (a : Agent) : Step → Option Agent
  | .start kind task interface channel maxTurns =>
    match a.phase with
    | .absent => some { init with
        kind := kind, task := task, interface := interface, channel := channel, maxTurns := maxTurns
        phase := .started, events := [.started task] }
    | _ => none
  | .register =>
    match a.phase with
    | .started => some { a with phase := .registered }
    | _ => none
  | .prepare error =>
    match a.phase with
    | .registered =>
      match error with
      | none => some { a with
          phase := .prompting 0, remainingTurns := a.maxTurns, currentPrompt := a.task }
      | some e => some { a with phase := .returned, result := some (.error e) }
    | _ => none
  | .check tool lastText => (checkedAttempt tool a.phase).map fun attempt => a.check attempt tool lastText
  | .call =>
    match a.phase with
    | .calling attempt => some { a with
        phase := .called attempt, lateCalls := if a.checked then a.lateCalls + 1 else a.lateCalls }
    | _ => none
  | .promptEnds e =>
    match a.phase with
    | .prompting attempt | .called attempt => some { a with phase := afterPrompt attempt e }
    | _ => none
  | .steer => (steerMessage a.phase).map fun msg =>
    { a with phase := .steering msg, events := a.events ++ [.steered msg] }
  | .reset =>
    match a.phase with
    | .steering msg =>
      let a := (a.send .none).getD a
      some { a with
        phase := .prompting 0
        remainingTurns := if a.maxTurns - a.turnsUsed = 0 then 1 else a.maxTurns - a.turnsUsed
        currentPrompt := msg
        delivered := a.delivered ++ [msg] }
    | _ => none
  | .conclude => a.conclude
  | .deregister =>
    match a.phase with
    | .returned => some { a with phase := .gone }
    | _ => none

end Agent

/-- All runs, by id; each run has an id of its own. -/
abbrev ActiveAgents := String → Agent

namespace ActiveAgents

def init : ActiveAgents := fun _ => .init

/-- Send a signal to an agent by ID. -/
def signal (s : ActiveAgents) (id : String) (sig : AgentSignal) : Except String ActiveAgents :=
  if (s id).inRegistry then
    match (s id).receive sig with
    | some a => .ok (Function.update s id a)
    | none => .error "agent receiver dropped"
  else .error ("no active agent with id '" ++ id ++ "'")

/-- Send a signal to the agent running on a specific interface and channel, `first` being
the first one in the order of the map. -/
def signalChannel (s : ActiveAgents) (interface channel : String) (sig : AgentSignal) (first : String) :
    Except String ActiveAgents :=
  if (s first).inRegistry ∧ (s first).interface = some interface ∧ (s first).channel = some channel then
    match (s first).receive sig with
    | some a => .ok (Function.update s first a)
    | none => .error "agent receiver dropped"
  else .error ("no active agent on " ++ interface ++ ":" ++ channel)

/-- A step of a run, or a signal that is accepted: a wrap-up or a steer. -/
inductive Action
  | run (id : String) (step : Agent.Step)
  | signal (id : String) (sig : AgentSignal)
  | signalChannel (interface channel : String) (sig : AgentSignal) (first : String)
  deriving DecidableEq, Repr

/-- One step of all agents and their senders. -/
def step (s : ActiveAgents) : Action → Option ActiveAgents
  | .run id b => ((s id).step b).map (Function.update s id)
  | .signal id sig => if sig = .none then none else (s.signal id sig).toOption
  | .signalChannel interface channel sig first =>
    if sig = .none then none else (s.signalChannel interface channel sig first).toOption

end ActiveAgents

end Auxlry

import Auxlry.Spec.Daemon
import Auxlry.Spec.Delegation
import Auxlry.Spec.HybridSearch

/-!
# Working on a batch

While the interface agent processes a batch, `process_batch` prompts a model, again after a
transient error, and the model calls tools. A tool acknowledges the task, gathers what it needs
and runs an agent, whose answer it returns; a synapse has a tool of its own that runs operators.
A prompt ends when the tool calls it has made have returned, and so does a tool call of a
synapse. What the model asks for and says, and what the memory and the database answer, is in
the steps; the tools of one prompt may be called in any order, also side by side.

The tool calls go by the ids that their agents get. `effects` is bookkeeping.
-/

namespace Auxlry

/-- A call of a tool, by the model of the interface or by that of a synapse. -/
inductive ToolCall
  | delegateSynapse (task ack : String)
  | delegateOperator (task ack : String) (node : Option String)
  /-- `delegate_operator` of the synapse with this id -/
  | synapseOperator (synapse task : String) (node : Option String)
  deriving DecidableEq, Repr

namespace ToolCall

/-- The kind of agent that it runs. -/
def kind : ToolCall → AgentKind
  | delegateSynapse .. => .synapse
  | delegateOperator .. | synapseOperator .. => .operator

def task : ToolCall → String
  | delegateSynapse task _ | delegateOperator task .. | synapseOperator _ task _ => task

/-- The synapse that has called it. -/
def synapse : ToolCall → Option String
  | synapseOperator synapse .. => some synapse
  | _ => none

/-- The interface and channel that the agent is run for: none below a synapse. -/
def origin (call : ToolCall) (pair : String × String) : Option (String × String) :=
  match call.synapse with
  | some _ => none
  | none => some pair

end ToolCall

/-- Where a tool call stands. -/
inductive ToolPhase
  /-- about to acknowledge the task -/
  | acking
  | searching
  /-- about to read the conversation -/
  | reading (memory : Option String)
  /-- `run` of the agent is called, for a synapse with what was gathered -/
  | running (memory conversation : Option String)
  deriving DecidableEq, Repr

structure ToolRun where
  id : String
  call : ToolCall
  phase : ToolPhase
  deriving DecidableEq, Repr

/-- What every prompt of a batch is given, besides the batch. -/
structure BatchSetup where
  preamble : String
  history : List ChatMessage
  deriving DecidableEq, Repr

/-- Where `process_batch` stands; `attempt` counts the retries of the prompt. -/
inductive BatchPhase
  | preparing
  /-- about to prompt -/
  | ready (setup : BatchSetup) (attempt : ℕ)
  | prompting (setup : BatchSetup) (attempt : ℕ)
  | ended (result : Except String String)

/-- What the interface and its tools do outside. -/
inductive BatchEffect (K : Type)
  | sleep (ms : ℕ)
  | prompt (preamble : String) (history : List ChatMessage) (input : String) (maxTurns : ℕ)
  | promptEnded (e : PromptEnd)
  | sendMessage (adapter channel text : String)
  | hybridSearch (query : String) (params : SearchParams K)
  | getRecentMessages (interface channel : String) (limit : ℕ)

/-- Send the acknowledgement of the model to the user. -/
def sendAck {K : Type} (adapters : List String) (interface channel ack : String) : List (BatchEffect K) :=
  if trim ack = "" then []
  else (adapters.filter (· = interface)).map (.sendMessage · channel (trim ack))

/-- The memories that were found, as a text. -/
def memoryContext {K : Type} (results : Except String (List (SearchResult K))) : Option String :=
  match results with
  | .error _ | .ok [] => none
  | .ok results => some ("\n".intercalate (results.map fun r =>
      "- [" ++ r.memoryType.asStr ++ "] " ++ r.content ++ " (source: " ++ r.source ++ ")"))

/-- The recent messages, as a text. -/
def conversationText (stored : Except String (List StoredMessage)) : Option String :=
  match stored with
  | .error _ | .ok [] => none
  | .ok msgs => some ("\n".intercalate (msgs.map fun m => m.author ++ ": " ++ m.content))

/-- The interface agent, `process_batch` for the batch in hand, and the tool calls under way. -/
structure Conversation (K : Type) where
  interface : InterfaceAgent
  batch : BatchPhase
  runs : List ToolRun
  effects : List (Received × BatchEffect K)

namespace Conversation

variable {K : Type}

def init (adapters : List String) : Conversation K := ⟨.init adapters, .preparing, [], []⟩

inductive Action (K : Type)
  /-- a step of the interface agent or of the channel it reads -/
  | interface (action : InterfaceAgent.Action)
  /-- `process_batch` renders its preamble and makes a client, and loads the recent messages -/
  | prepare (preamble : Except String String) (stored : Except String (List StoredMessage))
  | prompt
  /-- the model calls a tool -/
  | tool (id : String) (call : ToolCall)
  | ack (id : String)
  /-- search the memory, if there is one -/
  | search (id : String) (results : Option (Except String (List (SearchResult K))))
  | read (id : String) (stored : Except String (List StoredMessage))
  | agents (action : ActiveAgents.Action)
  /-- the tool call returns what its agent has returned, or why none was run -/
  | returns (id : String)
  | promptEnds (e : PromptEnd)
  | complete

/-- What follows the end of a prompt. -/
def afterPrompt (setup : BatchSetup) (attempt : ℕ) : PromptEnd → BatchPhase
  | .response text => .ended (.ok text)
  | .maxTurns => .ended (.error "interface prompt failed")
  | .error message =>
    if isTransient message then
      if attempt < maxRetries then .ready setup (attempt + 1)
      else .ended (.error "interface prompt failed after retries")
    else .ended (.error "interface prompt failed")

/-- A prompt, after a pause if it is not the first. -/
def promptEffects (r : Received) (setup : BatchSetup) (attempt : ℕ) : List (BatchEffect K) :=
  (if 0 < attempt then [.sleep (500 * attempt)] else []) ++
    [.prompt setup.preamble setup.history r.batch.combined 3]

def run (s : Conversation K) (id : String) : Option ToolRun := s.runs.find? (·.id = id)

/-- A tool call goes on. -/
def setRun (s : Conversation K) (id : String) (phase : ToolPhase) : Conversation K :=
  { s with runs := s.runs.map fun run => if run.id = id then { run with phase := phase } else run }

def does (s : Conversation K) (r : Received) (effects : List (BatchEffect K)) : Conversation K :=
  { s with effects := s.effects ++ effects.map (Prod.mk r) }

/-- Where a tool call begins; that of a synapse gathers nothing. -/
def firstPhase : ToolCall → ToolPhase
  | .synapseOperator .. => .running none none
  | _ => .acking

/-- Whether the model that a tool call is from is prompted, and asks for tools now. -/
def calls (s : Conversation K) : ToolCall → Bool
  | .synapseOperator synapse .. =>
    s.runs.any (fun run => run.id = synapse && run.call.kind = .synapse) &&
      Delegation.calling (s.interface.agents synapse).phase
  | _ =>
    match s.batch with
    | .prompting .. => true
    | _ => false

/-- An agent is started by a tool call that runs it; and a tool of a synapse returns when its
operators have. -/
def admits (s : Conversation K) (pair : String × String) : ActiveAgents.Action → Bool
  | .run id (.start kind task interface channel _) => s.runs.any fun run =>
    run.id = id && run.call.kind = kind && run.call.task = task &&
      (run.call.origin pair).map Prod.fst = interface && (run.call.origin pair).map Prod.snd = channel &&
      match run.phase with
      | .running .. => true
      | _ => false
  | .run id .call => s.runs.all fun run => run.call.synapse ≠ some id
  | _ => true

/-- A step of the interface agent that is not about its agents and does not end processing. -/
def interfaceStep (s : Conversation K) (a : InterfaceAgent.Action) : Option (Conversation K) :=
  match a with
  | .agents _ | .complete _ => none
  | .next => (s.interface.step a).map fun interface => { s with interface := interface, batch := .preparing }
  | _ => (s.interface.step a).map fun interface => { s with interface := interface }

/-- One step of the work on the batch `r`. -/
def work (s : Conversation K) [Zero K] (r : Received) : Action K → Option (Conversation K)
  | .prepare preamble stored =>
    match s.batch with
    | .preparing =>
      match preamble with
      | .error e => some { s with batch := .ended (.error e) }
      | .ok preamble =>
        let history := (stored.toOption.getD []).map StoredMessage.chat
        some { s.does r [.getRecentMessages r.batch.interface r.batch.channel historyLimit] with
          batch := .ready ⟨preamble, history⟩ 0 }
    | _ => none
  | .prompt =>
    match s.batch with
    | .ready setup attempt =>
      some { s.does r (promptEffects r setup attempt) with batch := .prompting setup attempt }
    | _ => none
  | .tool id call =>
    if s.calls call ∧ (s.run id).isNone ∧ (s.interface.agents id).phase = .absent then
      some { s with runs := s.runs ++ [⟨id, call, firstPhase call⟩] }
    else none
  | .ack id =>
    (s.run id).bind fun run =>
      match run.phase, run.call with
      | .acking, .delegateSynapse _ ack => some
        ((s.does r (sendAck s.interface.adapters r.batch.interface r.batch.channel ack)).setRun id .searching)
      | .acking, .delegateOperator _ ack _ => some
        ((s.does r (sendAck s.interface.adapters r.batch.interface r.batch.channel ack)).setRun id
          (.running none none))
      | _, _ => none
  | .search id results =>
    (s.run id).bind fun run =>
      match run.phase, results with
      | .searching, none => some (s.setRun id (.reading none))
      | .searching, some results => some
        ((s.does r [.hybridSearch run.call.task ⟨5, none, .finite 0, 1⟩]).setRun id
          (.reading (memoryContext results)))
      | _, _ => none
  | .read id stored =>
    (s.run id).bind fun run =>
      match run.phase with
      | .reading memory => some
        ((s.does r [.getRecentMessages r.batch.interface r.batch.channel 20]).setRun id
          (.running memory (conversationText stored)))
      | _ => none
  | .agents action =>
    if s.admits r.pair action then
      (s.interface.step (.agents action)).map fun interface => { s with interface := interface }
    else none
  | .returns id =>
    (s.run id).bind fun run =>
      match run.phase, (s.interface.agents id).phase with
      | .running .., .gone | .running .., .absent => some { s with runs := s.runs.filter (·.id ≠ id) }
      | _, _ => none
  | .promptEnds e =>
    match s.batch with
    | .prompting setup attempt =>
      if s.runs = [] then some { s.does r [.promptEnded e] with batch := afterPrompt setup attempt e } else none
    | _ => none
  | .complete =>
    match s.batch with
    | .ended result => (s.interface.step (.complete result)).map fun interface => { s with interface := interface }
    | _ => none
  | .interface _ => none

/-- One step of the interface agent with its work. -/
def step [Zero K] (s : Conversation K) (a : Action K) : Option (Conversation K) :=
  match a, s.interface.phase with
  | .interface action, _ => s.interfaceStep action
  | a, .processing r => s.work r a
  -- signals for agents, though there are none
  | .agents (.signal id sig), _ =>
    (s.interface.step (.agents (.signal id sig))).map fun interface => { s with interface := interface }
  | _, _ => none

end Conversation

end Auxlry

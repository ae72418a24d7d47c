import Auxlry.Spec.Agent
import Auxlry.Spec.Session

/-!
# The interface agent

`InterfaceAgent.run` takes batches off a channel, processes them one at a time and
answers. While a batch is processed it keeps receiving: a batch of the same interface and
channel steers the agent that is active there, and any other, or one that finds no agent,
is deferred. What processing a batch returns, and which agent a steer finds, is in the
steps; the agents run beside.

`number`, `received`, `processed` and `steered` are bookkeeping: the batches are numbered
as they are received.
-/

namespace Auxlry

/-- The messages of a batch as one text. -/
def BatchedInput.combined (b : BatchedInput) : String :=
  "\n".intercalate (b.messages.map fun m => m.author ++ ": " ++ m.content)

/-- A batch that was received, and its number. -/
structure Received where
  batch : BatchedInput
  number : ℕ
  deriving DecidableEq, Repr

/-- The interface and channel that a batch came from. -/
def Received.pair (r : Received) : String × String := (r.batch.interface, r.batch.channel)

/-- What an answer leads to. -/
inductive Output
  /-- a row of the conversation -/
  | stored (interface channel author content direction : String)
  | published (interface channel content : String)
  | sentMessage (adapter channel content : String)
  deriving DecidableEq, Repr

inductive InterfacePhase
  /-- about to take the next batch -/
  | idle
  | processing (r : Received)
  /-- processing has returned, and what has queued up is drained -/
  | draining (r : Received) (result : Except String String)
  | responding (r : Received) (result : Except String String)
  /-- the channel is closed and empty -/
  | stopped

structure InterfaceAgent where
  adapters : List String
  agents : ActiveAgents
  /-- the channel of batches -/
  queue : List BatchedInput
  closed : Bool
  /-- batches that arrived while another was processed -/
  deferred : List Received
  phase : InterfacePhase
  outputs : List Output
  received : ℕ
  processed : List Received
  steered : List Received

namespace InterfaceAgent

def init (adapters : List String) : InterfaceAgent where
  adapters := adapters
  agents := .init
  queue := []
  closed := false
  deferred := []
  phase := .idle
  outputs := []
  received := 0
  processed := []
  steered := []

inductive Action
  /-- a batch is put in the channel -/
  | deliver (b : BatchedInput)
  /-- the senders of the channel are gone -/
  | close
  | agents (action : ActiveAgents.Action)
  /-- take the next batch -/
  | next
  /-- receive a batch during processing; `first` is the agent that a steer finds -/
  | additional (first : Option String)
  /-- processing returns -/
  | complete (result : Except String String)
  | drain
  | respond

/-- Take a batch off the channel. -/
def recv (s : InterfaceAgent) : Option (Received × InterfaceAgent) :=
  match s.queue with
  | b :: rest => some (⟨b, s.received⟩, { s with queue := rest, received := s.received + 1 })
  | [] => none

/-- Start to process a batch. -/
def process (s : InterfaceAgent) (r : Received) : InterfaceAgent :=
  { s with phase := .processing r, processed := s.processed ++ [r] }

/-- Put a batch on the deferred list. -/
def defer (s : InterfaceAgent) (r : Received) : InterfaceAgent :=
  { s with deferred := s.deferred ++ [r] }

/-- The deferred list without its last batch, which `pop` returns. -/
def pop (s : InterfaceAgent) : Option (Received × InterfaceAgent) :=
  s.deferred.getLast?.map fun r => (r, { s with deferred := s.deferred.dropLast })

/-- Serve deferred batches first, otherwise wait for new input. -/
def next (s : InterfaceAgent) : Option InterfaceAgent :=
  match s.pop with
  | some (r, s) => some (s.process r)
  | none =>
    match s.recv with
    | some (r, s) => some (s.process r)
    | none => if s.closed then some { s with phase := .stopped } else none

/-- A batch `r` received while a batch of `pair` is processed. -/
def additional (s : InterfaceAgent) (pair : String × String) (r : Received) (first : Option String) :
    InterfaceAgent :=
  if r.pair = pair then
    match first.map (s.agents.signalChannel pair.1 pair.2 (.steer r.batch.combined)) with
    | some (.ok agents) => { s with agents := agents, steered := s.steered ++ [r] }
    | _ => s.defer r
  else s.defer r

/-- Persist, publish and deliver a response; or tell that processing failed. -/
def respond (s : InterfaceAgent) (r : Received) (result : Except String String) : InterfaceAgent :=
  let deliver (text : String) : List Output :=
    (s.adapters.filter (· = r.batch.interface)).map (.sentMessage · r.batch.channel text)
  { s with
    phase := .idle
    outputs := s.outputs ++ match result with
      | .ok response =>
        .stored r.batch.interface r.batch.channel "auxlry" response "outbound" ::
          .published r.batch.interface r.batch.channel response :: deliver response
      | .error _ => deliver "Sorry, I ran into an issue. Want me to try again?" }

/-- One step of the interface agent, of the channel it reads or of the other agents. -/
def step (s : InterfaceAgent) : Action → Option InterfaceAgent
  | .deliver b =>
    if s.queue.length < batchCapacity ∧ s.closed = false then some { s with queue := s.queue ++ [b] }
    else none
  | .close => some { s with closed := true }
  | .agents action => (s.agents.step action).map fun agents => { s with agents := agents }
  | .next =>
    match s.phase with
    | .idle => s.next
    | _ => none
  | .additional first =>
    match s.phase with
    | .processing current => s.recv.map fun (r, s) => s.additional current.pair r first
    | _ => none
  | .complete result =>
    match s.phase with
    | .processing r => some { s with phase := .draining r result }
    | _ => none
  | .drain =>
    match s.phase with
    | .draining r result =>
      match s.recv with
      | some (additional, s) => some (s.defer additional)
      | none => some { s with phase := .responding r result }
    | _ => none
  | .respond =>
    match s.phase with
    | .responding r result => some (s.respond r result)
    | _ => none

end InterfaceAgent

end Auxlry

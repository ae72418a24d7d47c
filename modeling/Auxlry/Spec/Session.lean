import Mathlib.Data.Nat.Notation
import Mathlib.Logic.Function.Basic

/-!
# Message batching

`SessionManager` collects the messages of a channel and sends them on as one batch,
once the channel has been quiet for `debounce`. The first message of a batch spawns a
timer task; a task that wakes too early sleeps on. The whole of `addMessage`, and all a
task does between two sleeps, happens under one mutex and is one step. Time is in
milliseconds.

`added` and `sent` are bookkeeping: every message that was added and every batch that
was sent, in order. Nothing reads them.
-/

namespace Auxlry

/-- A pending message waiting to be batched. -/
structure PendingMessage where
  author : String
  content : String
  receivedAt : ℕ
  deriving DecidableEq, Repr

/-- Per-channel session state for smart batching. -/
structure ChannelSession where
  pending : List PendingMessage
  lastReceived : ℕ
  deriving DecidableEq, Repr

/-- A batch of messages ready for LLM processing. -/
structure BatchedInput where
  interface : String
  channel : String
  messages : List PendingMessage
  deriving DecidableEq, Repr

/-- The key of a channel's session. -/
def sessionKey (interface channel : String) : String := interface ++ ":" ++ channel

def BatchedInput.key (b : BatchedInput) : String := sessionKey b.interface b.channel

/-- A debounce task, asleep until `wakeAt`. -/
structure DebounceTask where
  interface : String
  channel : String
  wakeAt : ℕ
  deriving DecidableEq, Repr

def DebounceTask.key (t : DebounceTask) : String := sessionKey t.interface t.channel

/-- A message as it was added: under which key, and when. -/
structure AddedMessage where
  key : String
  msg : PendingMessage
  addedAt : ℕ
  deriving DecidableEq, Repr

/-- Manages smart batching and debounce across channels. -/
structure SessionManager where
  debounce : ℕ
  now : ℕ
  sessions : String → Option ChannelSession
  /-- the live debounce tasks; those from `nextTask` on are not spawned yet -/
  tasks : ℕ → Option DebounceTask
  nextTask : ℕ
  /-- the channel to the interface agent -/
  batches : List BatchedInput
  added : List AddedMessage
  sent : List BatchedInput

/-- How many batches the channel holds. -/
def batchCapacity : ℕ := 64

namespace SessionManager

def new (debounce now : ℕ) : SessionManager where
  debounce := debounce
  now := now
  sessions := fun _ => none
  tasks := fun _ => none
  nextTask := 0
  batches := []
  added := []
  sent := []

inductive Action
  | tick
  /-- a message whose arrival was noted at `receivedAt`, before the mutex was free -/
  | addMessage (interface channel author content : String) (receivedAt : ℕ)
  | wake (task : ℕ)
  /-- the interface agent takes a batch -/
  | recv
  deriving DecidableEq, Repr

/-- Spawn a debounce task. -/
def spawn (m : SessionManager) (t : DebounceTask) : SessionManager :=
  { m with tasks := Function.update m.tasks m.nextTask (some t), nextTask := m.nextTask + 1 }

/-- Put a message in its session. -/
def push (m : SessionManager) (key : String) (msg : PendingMessage) : SessionManager :=
  { m with
    sessions := Function.update m.sessions key (some
      ⟨((m.sessions key).elim [] (·.pending)) ++ [msg], m.now⟩)
    added := m.added ++ [⟨key, msg, m.now⟩] }

/-- Add a message and start the debounce timer for its channel, if it is the first. -/
def addMessage (m : SessionManager) (interface channel : String) (msg : PendingMessage) :
    SessionManager :=
  let m' := m.push (sessionKey interface channel) msg
  if ((m'.sessions (sessionKey interface channel)).elim [] (·.pending)).length = 1 then
    m'.spawn ⟨interface, channel, m.now + m.debounce⟩
  else m'

/-- The task `i` sends the session of its channel as a batch, and ends. -/
def flush (m : SessionManager) (i : ℕ) (t : DebounceTask) (session : ChannelSession) : SessionManager :=
  let batch : BatchedInput := ⟨t.interface, t.channel, session.pending⟩
  { m with
    sessions := Function.update m.sessions t.key none
    tasks := Function.update m.tasks i none
    batches := m.batches ++ [batch]
    sent := m.sent ++ [batch] }

/-- The task `i` wakes up. A flush waits for room in the channel. -/
def wake (m : SessionManager) (i : ℕ) (t : DebounceTask) : Option SessionManager :=
  match m.sessions t.key with
  | some session =>
    if session.lastReceived + m.debounce ≤ m.now then
      if m.batches.length < batchCapacity then some (m.flush i t session) else none
    else
      some { m with tasks := Function.update m.tasks i (some { t with wakeAt := m.now + m.debounce }) }
  | none => some { m with tasks := Function.update m.tasks i none }

/-- One step of the session manager and its tasks. -/
def step (m : SessionManager) : Action → Option SessionManager
  | .tick => some { m with now := m.now + 1 }
  | .addMessage interface channel author content receivedAt =>
    if receivedAt ≤ m.now then some (m.addMessage interface channel ⟨author, content, receivedAt⟩)
    else none
  | .wake i =>
    match m.tasks i with
    | some t => if t.wakeAt ≤ m.now then m.wake i t else none
    | none => none
  | .recv =>
    match m.batches with
    | [] => none
    | _ :: rest => some { m with batches := rest }

end SessionManager

end Auxlry

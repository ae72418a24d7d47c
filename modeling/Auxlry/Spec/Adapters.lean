import Auxlry.Spec.Config
import Auxlry.Spec.Startup

/-!
# The adapters

The daemon has a Discord adapter for each such interface of its configuration. Discord
hands a message to the handler of the adapter, which lets it through to the event bus or
ignores it. Nothing else publishes messages.

`arrived` is bookkeeping: what was handed to which adapter.
-/

namespace Auxlry

/-- The id of a channel is of sixty-four bits, and not zero. -/
structure ChannelId where
  id : ℕ
  pos : 0 < id
  lt : id < UInt64.size
  deriving DecidableEq

def ChannelId.text (c : ChannelId) : String := toString c.id

structure DiscordUser where
  name : String
  bot : Bool
  deriving DecidableEq

/-- A message that Discord hands over. -/
structure DiscordMessage where
  author : DiscordUser
  channelId : ChannelId
  content : String
  deriving DecidableEq

structure DiscordAdapter where
  channels : List String
  interfaceName : String
  deriving DecidableEq

namespace DiscordAdapter

/-- Instantiate adapters from config; other types than Discord are skipped. -/
def instantiate (interfaces : List Loader.InterfaceConfig) : List DiscordAdapter :=
  interfaces.filterMap fun iface =>
    match iface.adapter with
    | .discord a => some ⟨a.channels, iface.name⟩
    | _ => none

/-- The handler of messages: it ignores those of bots, and of channels that are not in the
list, if there is one. -/
def message (a : DiscordAdapter) (msg : DiscordMessage) : Option EventPayload :=
  if msg.author.bot then none
  else if !a.channels.isEmpty && !a.channels.contains msg.channelId.text then none
  else some (.messageReceived a.interfaceName msg.channelId.text msg.author.name msg.content)

end DiscordAdapter

structure Wired where
  startup : Startup
  adapters : List DiscordAdapter
  arrived : List (DiscordAdapter × DiscordMessage)

namespace Wired

def init (now : ℕ) (interfaces : List Loader.InterfaceConfig) (messages : MessageTable) : Wired where
  startup := .init now ((DiscordAdapter.instantiate interfaces).map (·.interfaceName)) messages
  adapters := DiscordAdapter.instantiate interfaces
  arrived := []

inductive Action
  | startup (action : Startup.Action)
  /-- a message is handed to an adapter -/
  | message (adapter : ℕ) (msg : DiscordMessage)

/-- An adapter publishes a message of its own. -/
def publishes : Startup.Action → Bool
  | .daemon (.publish event) => event.message.isSome
  | _ => false

/-- One step of the daemon or of an adapter, which runs once it is spawned. -/
def step (s : Wired) : Action → Option Wired
  | .startup action =>
    if publishes action then none
    else (s.startup.step action).map fun startup => { s with startup := startup }
  | .message i msg =>
    if s.startup.stage = .starting then none
    else
      s.adapters[i]?.bind fun a =>
        match a.message msg with
        | none => some { s with arrived := s.arrived ++ [(a, msg)] }
        | some event =>
          (s.startup.step (.daemon (.publish event))).map fun startup =>
            { s with startup := startup, arrived := s.arrived ++ [(a, msg)] }

end Wired

end Auxlry

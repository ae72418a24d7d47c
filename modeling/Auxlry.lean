import Auxlry.Proof.Accounting
import Auxlry.Proof.Allocation
import Auxlry.Proof.Answers
import Auxlry.Proof.Batching
import Auxlry.Proof.CatchUp
import Auxlry.Proof.Chunks
import Auxlry.Proof.Cleanup
import Auxlry.Proof.Context
import Auxlry.Proof.CoreSignals
import Auxlry.Proof.DefaultNode
import Auxlry.Proof.Deferred
import Auxlry.Proof.Delivery
import Auxlry.Proof.EventCounts
import Auxlry.Proof.Events
import Auxlry.Proof.Exchanges
import Auxlry.Proof.Expiry
import Auxlry.Proof.Frames
import Auxlry.Proof.GraphTables
import Auxlry.Proof.Importance
import Auxlry.Proof.Isolation
import Auxlry.Proof.LastWrite
import Auxlry.Proof.LinkAttempts
import Auxlry.Proof.Linking
import Auxlry.Proof.LiveFeed
import Auxlry.Proof.Lookups
import Auxlry.Proof.Memory
import Auxlry.Proof.MemoryCalls
import Auxlry.Proof.MemoryEdges
import Auxlry.Proof.MemoryRows
import Auxlry.Proof.MemoryUpdates
import Auxlry.Proof.Messages
import Auxlry.Proof.NatTypes
import Auxlry.Proof.NodeLinks
import Auxlry.Proof.OneAtATime
import Auxlry.Proof.Outcomes
import Auxlry.Proof.OwnNode
import Auxlry.Proof.Peers
import Auxlry.Proof.Permits
import Auxlry.Proof.Persister
import Auxlry.Proof.PidFile
import Auxlry.Proof.Prompts
import Auxlry.Proof.Proxy
import Auxlry.Proof.Ranking
import Auxlry.Proof.ReadBack
import Auxlry.Proof.Received
import Auxlry.Proof.Reconnecting
import Auxlry.Proof.Remote
import Auxlry.Proof.Replies
import Auxlry.Proof.Search
import Auxlry.Proof.SearchMatches
import Auxlry.Proof.Sending
import Auxlry.Proof.Sources
import Auxlry.Proof.Steering
import Auxlry.Proof.Stun
import Auxlry.Proof.Substitution
import Auxlry.Proof.TokenAuth
import Auxlry.Proof.Tokens
import Auxlry.Proof.Traversal
import Auxlry.Proof.Turns
import Auxlry.Proof.TypeArguments
import Auxlry.Proof.Typing
import Auxlry.Proof.Workspaces
import Auxlry.Proof.WrapUp

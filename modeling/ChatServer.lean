import ChatServer.Library.Run
import ChatServer.Library.RingBuffer
import ChatServer.Library.Table
import ChatServer.Server.Dispatch
import ChatServer.Membership.Entry
import ChatServer.Membership.Invariant
import ChatServer.Membership.Identity
import ChatServer.History.LastN
import ChatServer.History.Mirror
import ChatServer.History.Replay
import ChatServer.History.Pages
import ChatServer.Replies.Lists
import ChatServer.Access.Revocation
import ChatServer.Access.Bans
import ChatServer.Access.Private
import ChatServer.Access.Redeem
import ChatServer.Transport.Tls
import ChatServer.Pool.Jobs
import ChatServer.Pool.Dequeue
import ChatServer.Pool.Join
import ChatServer.Connection.Ends
import ChatServer.Concurrent.Deletion
import ChatServer.Concurrent.ReplayOrder
import ChatServer.Concurrent.Edits
import ChatServer.Concurrent.Finality
import ChatServer.Concurrent.Broadcasts
import ChatServer.Server.Keywords
import ChatServer.Access.Registration
import ChatServer.Membership.Attempts
import ChatServer.Replies.Status
import ChatServer.Authority.Agreement
import ChatServer.Authority.Moderation
import ChatServer.Membership.Occupied
import ChatServer.Membership.Takeover
import ChatServer.Replies.OneLine
import ChatServer.Access.Suppression
import ChatServer.Access.Expiry
import ChatServer.Presence.Views
import ChatServer.Access.RateLimit
import ChatServer.Access.LoginRate
import ChatServer.Library.Tokens
import ChatServer.Client.ServerLine
import ChatServer.Client.Receiver
import ChatServer.Protocol.Fields
import ChatServer.Client.Messages
import ChatServer.Replies.Pages
import ChatServer.Client.Listings
import ChatServer.Protocol.RoundTrip
import ChatServer.Library.SlotArray
import ChatServer.Registry.Arrays
import ChatServer.Registry.Ledger
import ChatServer.Library.LockOrder
import ChatServer.Library.LockProg
import ChatServer.Concurrent.Locks
import ChatServer.Concurrent.RegistryLocks
import ChatServer.Concurrent.HandlerLocks
import ChatServer.Concurrent.Deadlock
import ChatServer.Library.PointerProg
import ChatServer.Concurrent.Kicked
import ChatServer.Connection.Closing
import ChatServer.Library.Keyed
import ChatServer.Presence.Calls
import ChatServer.Presence.Silence
import ChatServer.Presence.Isolation
import ChatServer.Library.Windows
import ChatServer.Startup.Config
import ChatServer.Startup.Grammar
import ChatServer.Library.Checked
import ChatServer.History.Indices
import ChatServer.Transport.ConnSend
import ChatServer.Startup.Rooms
import ChatServer.Library.Fair
import ChatServer.Pool.Signals
import ChatServer.Pool.Progress
import ChatServer.Pool.Liveness
import ChatServer.Pool.Shutdown
import ChatServer.Library.Holders
import ChatServer.Connection.EventLoop
import ChatServer.Connection.Ownership
import ChatServer.Connection.Handoff
import ChatServer.Connection.LoopSteps
import ChatServer.Connection.Handled
import ChatServer.Client.Sender
import ChatServer.Access.Journal
import ChatServer.Access.Accounts
import ChatServer.Access.Owners
import ChatServer.Client.Delivery
import ChatServer.Transport.Addressees
import ChatServer.Access.FloodControl
import ChatServer.Pool.Census
import ChatServer.Access.Lineage
import ChatServer.Authority.Isolation
import ChatServer.History.Restart

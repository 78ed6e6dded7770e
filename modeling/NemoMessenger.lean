import NemoMessenger.Data.FiniteMap
import NemoMessenger.Data.Run
import NemoMessenger.Data.Once
import NemoMessenger.Data.Outbox
import NemoMessenger.Data.Chars
import NemoMessenger.Data.Entries
import NemoMessenger.Data.Journal
import NemoMessenger.Wire.Bytes
import NemoMessenger.Wire.Cbor
import NemoMessenger.Wire.Canonical
import NemoMessenger.Wire.Nesting
import NemoMessenger.Wire.Fields
import NemoMessenger.Wire.Envelope
import NemoMessenger.Wire.Padding
import NemoMessenger.Wire.Strict
import NemoMessenger.Wire.Crypto
import NemoMessenger.Wire.Signed
import NemoMessenger.Wire.Frame
import NemoMessenger.Wire.GroupObject
import NemoMessenger.Wire.Objects
import NemoMessenger.Server.State
import NemoMessenger.Server.Home
import NemoMessenger.Server.Federation
import NemoMessenger.Server.Operation
import NemoMessenger.Server.MailboxLog
import NemoMessenger.Server.Valid
import NemoMessenger.Server.Group
import NemoMessenger.Server.Database
import NemoMessenger.Server.Sweep
import NemoMessenger.Server.Sync
import NemoMessenger.Server.Persist
import NemoMessenger.Server.Reload
import NemoMessenger.Server.GroupOperation
import NemoMessenger.Server.GroupSync
import NemoMessenger.Server.GroupReload
import NemoMessenger.Server.Node
import NemoMessenger.Server.Boot
import NemoMessenger.Server.Reachable
import NemoMessenger.Server.Restart
import NemoMessenger.Server.Capability
import NemoMessenger.Server.Idempotency
import NemoMessenger.Server.Replay
import NemoMessenger.Server.Tombstone
import NemoMessenger.Server.Removal
import NemoMessenger.Server.GroupAppend
import NemoMessenger.Server.Membership
import NemoMessenger.Server.MembershipRun
import NemoMessenger.Server.GroupPersist
import NemoMessenger.Server.Retry
import NemoMessenger.Server.Http
import NemoMessenger.Server.Copies
import NemoMessenger.Server.Fanout
import NemoMessenger.Server.FanoutOrder
import NemoMessenger.Client.Mailbox
import NemoMessenger.Server.Drain
import NemoMessenger.Server.Answer
import NemoMessenger.Server.Framed
import NemoMessenger.Server.Binds
import NemoMessenger.Data.Program
import NemoMessenger.Client.State
import NemoMessenger.Client.Inbox
import NemoMessenger.Client.Group
import NemoMessenger.Client.Memory
import NemoMessenger.Client.Vault
import NemoMessenger.Client.Save
import NemoMessenger.Client.Message
import NemoMessenger.Client.Origin
import NemoMessenger.Client.Device
import NemoMessenger.Client.Session
import NemoMessenger.Client.Shared
import NemoMessenger.Client.Fetch
import NemoMessenger.Client.Method
import NemoMessenger.Client.Run
import NemoMessenger.Client.Inside
import NemoMessenger.Client.Ack
import NemoMessenger.Client.Revocation
import NemoMessenger.Client.Pins
import NemoMessenger.Client.Calm
import NemoMessenger.Client.Lookup
import NemoMessenger.Client.Echo
import NemoMessenger.Client.Tree
import NemoMessenger.Client.Leaves
import NemoMessenger.Client.Transport
import NemoMessenger.Client.Endpoint
import NemoMessenger.Client.Authentic
import NemoMessenger.Client.Anonymous
import NemoMessenger.Client.Frame
import NemoMessenger.Client.Call
import NemoMessenger.Client.Registration
import NemoMessenger.Client.Refusal
import NemoMessenger.Client.Stock
import NemoMessenger.Client.Signing
import NemoMessenger.Client.Silent
import NemoMessenger.Client.Upgrade
import NemoMessenger.Client.Reference
import NemoMessenger.Client.Reaction
import NemoMessenger.Client.Failure
import NemoMessenger.Client.Freshness
import NemoMessenger.Client.Binding
import NemoMessenger.Client.Edit
import NemoMessenger.Client.Watch
import NemoMessenger.Client.Counter
import NemoMessenger.Client.Numbers
import NemoMessenger.Client.Vanish
import NemoMessenger.Client.Accounts
import NemoMessenger.Client.Says
import NemoMessenger.Client.Returned
import NemoMessenger.Client.Ends
import NemoMessenger.Client.App
import NemoMessenger.Client.Encoding
import NemoMessenger.Client.Signal
import NemoMessenger.Client.Loopback
import NemoMessenger.Client.Skew
import NemoMessenger.Client.GroupFile
import NemoMessenger.Client.Notify
import NemoMessenger.Client.Merge
import NemoMessenger.Client.Tor
import NemoMessenger.Client.Storage
import NemoMessenger.Client.Restore
import NemoMessenger.Client.Ratchet
import NemoMessenger.Server.Routes
import NemoMessenger.Server.Reading
import NemoMessenger.Server.Revoke
import NemoMessenger.Server.Expiry
import NemoMessenger.Server.Reap
import NemoMessenger.Server.Accounts
import NemoMessenger.Server.Prekeys
import NemoMessenger.Server.Nonces
import NemoMessenger.Server.Pages
import NemoMessenger.Server.Dial
import NemoMessenger.Server.GroupTurn
import NemoMessenger.Server.Files
import NemoMessenger.Server.Retention
import NemoMessenger.Server.Wakeup
import NemoMessenger.Client.Privacy
import NemoMessenger.Client.Outbox
import NemoMessenger.Client.Agreement

import RemotierSync.Library.KeyedTable
import RemotierSync.Library.Program
import RemotierSync.Library.Interleaving
import RemotierSync.Library.Meanwhile
import RemotierSync.Library.History
import RemotierSync.Library.LastWrite
import RemotierSync.Library.ChangeLog
import RemotierSync.Library.Framing
import RemotierSync.Library.Faults
import RemotierSync.Library.SlidingWindow
import RemotierSync.Library.Equidistribution
import RemotierSync.Library.Json
import RemotierSync.Library.JsonText
import RemotierSync.Record
import RemotierSync.Api
import RemotierSync.Schema
import RemotierSync.Store
import RemotierSync.Queries
import RemotierSync.Sqlite
import RemotierSync.Postgres
import RemotierSync.WellFormed
import RemotierSync.Writes
import RemotierSync.Sync
import RemotierSync.Client
import RemotierSync.Filing
import RemotierSync.Push
import RemotierSync.Shares
import RemotierSync.Auth
import RemotierSync.RateLimit
import RemotierSync.Server
import RemotierSync.Follower
import RemotierSync.Reference
import RemotierSync.Convergence
import RemotierSync.Cursor
import RemotierSync.Ownership
import RemotierSync.Reading
import RemotierSync.Writing
import RemotierSync.Revocation
import RemotierSync.Writers
import RemotierSync.Overtaking
import RemotierSync.Sessions
import RemotierSync.OlderSessions
import RemotierSync.LateSessions
import RemotierSync.Sealing
import RemotierSync.Fidelity
import RemotierSync.Addresses
import RemotierSync.RecoveryCodes
import RemotierSync.Accounts
import RemotierSync.AccountRows
import RemotierSync.Recovery
import RemotierSync.Credentials
import RemotierSync.TokenRows
import RemotierSync.Provenance
import RemotierSync.Faults
import RemotierSync.Misfiling
import RemotierSync.Pages
import RemotierSync.UnknownKinds
import RemotierSync.Delivery
import RemotierSync.OneRow
import RemotierSync.Exchanges
import RemotierSync.KeyWrapping
import RemotierSync.Collation
import RemotierSync.Backends
import RemotierSync.Caching
import RemotierSync.Numbering
import RemotierSync.Backend
import RemotierSync.HighWater
import RemotierSync.Rejections
import RemotierSync.Clocks
import RemotierSync.Members
import RemotierSync.Retries
import RemotierSync.Stale
import RemotierSync.Leaving
import RemotierSync.Router
import RemotierSync.Authority
import RemotierSync.Guesses
import RemotierSync.Outsiders
import RemotierSync.Tenants
import RemotierSync.Isolation
import RemotierSync.Concurrent
import RemotierSync.Wire
import RemotierSync.Http
import RemotierSync.Words
import RemotierSync.Transport
import RemotierSync.Payloads

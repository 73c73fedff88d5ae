import QuicSql.Lib.Transition
import QuicSql.Lib.Pool
import QuicSql.Lib.Tally
import QuicSql.Lib.Txn
import QuicSql.Lib.Ring
import QuicSql.Lib.Meter
import QuicSql.Lib.Path
import QuicSql.Lib.Bytes
import QuicSql.Registry.Model
import QuicSql.Registry.Invariant
import QuicSql.Registry.Preservation
import QuicSql.Registry.Steps
import QuicSql.Registry.Ownership
import QuicSql.Session.Store
import QuicSql.Session.System
import QuicSql.Session.Moves
import QuicSql.Session.Slots
import QuicSql.Session.Exclusive
import QuicSql.Backend.Authorizer
import QuicSql.Backend.Conn
import QuicSql.Backend.Pool
import QuicSql.Authz.Policy
import QuicSql.Httpapi.ReadOnly
import QuicSql.Engine.Batch
import QuicSql.Httpapi.Pipeline
import QuicSql.Client.Batch
import QuicSql.Feed.Model
import QuicSql.Feed.Replay
import QuicSql.Feed.Stream
import QuicSql.Feed.Hooks
import QuicSql.Feed.Resume
import QuicSql.Feed.Broker
import QuicSql.Auth.Token
import QuicSql.Auth.Minter
import QuicSql.Auth.Chain
import QuicSql.Auth.Middleware
import QuicSql.Auth.Revocation
import QuicSql.Auth.StepUp
import QuicSql.Enroll.Model
import QuicSql.Enroll.Consistency
import QuicSql.Admin.PrincipalDelete
import QuicSql.Provision.Converge
import QuicSql.Serverd.Start
import QuicSql.Serverd.Restart
import QuicSql.Enroll.Cap
import QuicSql.Enroll.SingleUse
import QuicSql.Enroll.Idle
import QuicSql.Enroll.Access
import QuicSql.Session.Lag
import QuicSql.Session.Rejected
import QuicSql.Admin.Restore
import QuicSql.Wire.Codes
import QuicSql.Lib.Decimal
import QuicSql.Wire.Value
import QuicSql.Httpapi.Cursor
import QuicSql.Client.Pinned
import QuicSql.Auth.Downgrade
import QuicSql.Authz.History
import QuicSql.Client.Commit
import QuicSql.Engine.Classify
import QuicSql.Httpapi.Blob
import QuicSql.Httpapi.Conditions
import QuicSql.Admin.Upload
import QuicSql.Serverd.Caps
import QuicSql.Httpapi.BlobStores
import QuicSql.Httpapi.BlobOptions
import QuicSql.Httpapi.BlobEviction
import QuicSql.Enroll.Restitution
import QuicSql.Wire.Envelope
import QuicSql.Client.Result
import QuicSql.Enroll.RateLimit
import QuicSql.Limits.Limiter
import QuicSql.Engine.Query
import QuicSql.Config.Paths
import QuicSql.Auth.Keyring
import QuicSql.Auth.TokenFormat
import QuicSql.Auth.Challenge
import QuicSql.Enroll.Gate
import QuicSql.Lib.Custody
import QuicSql.Session.Capture
import QuicSql.Session.Shutdown
import QuicSql.Httpapi.Stream
import QuicSql.Httpapi.Documents
import QuicSql.Client.Exchange
import QuicSql.Client.Agreement
import QuicSql.Client.Rows
import QuicSql.Client.ConnPool
import QuicSql.Lib.EventStream
import QuicSql.Wire.JsonText
import QuicSql.Httpapi.Changes
import QuicSql.Httpapi.Follower
import QuicSql.Registry.Shutdown
import QuicSql.Httpapi.Routing
import QuicSql.Obs.Metrics

import ResourceServer.Foundation.CString
import ResourceServer.Foundation.Delimited
import ResourceServer.Foundation.Utf8
import ResourceServer.Foundation.Json
import ResourceServer.Foundation.Transition
import ResourceServer.Foundation.Loop
import ResourceServer.Foundation.Program
import ResourceServer.Foundation.Layers
import ResourceServer.Foundation.Table
import ResourceServer.Foundation.Census
import ResourceServer.Foundation.GuardedQueue
import ResourceServer.Foundation.Monitor
import ResourceServer.Foundation.Assignments
import ResourceServer.Service.Query
import ResourceServer.Service.Actions
import ResourceServer.Service.Dao
import ResourceServer.Service.Cache
import ResourceServer.Service.Storage
import ResourceServer.Service.Tokens
import ResourceServer.Service.Subjects
import ResourceServer.Service.Services
import ResourceServer.Service.World
import ResourceServer.Service.History
import ResourceServer.Service.Calls
import ResourceServer.Service.Ownership
import ResourceServer.Service.Rows
import ResourceServer.Service.Objects
import ResourceServer.Service.Uploads
import ResourceServer.Service.Deletion
import ResourceServer.Service.Contents
import ResourceServer.Service.Sharing
import ResourceServer.Service.Authentication
import ResourceServer.Service.Coherence
import ResourceServer.Service.Transparency
import ResourceServer.Service.Isolation
import ResourceServer.Service.Interleaving
import ResourceServer.Service.Budgets
import ResourceServer.Service.Statements
import ResourceServer.Service.Messages
import ResourceServer.Service.Cluster
import ResourceServer.Service.Invalidation
import ResourceServer.Service.JsonText
import ResourceServer.Service.ReadBack
import ResourceServer.Http.Connection
import ResourceServer.Http.Receiving
import ResourceServer.Http.Parser
import ResourceServer.Http.Head
import ResourceServer.Http.Reading
import ResourceServer.Http.Resumption
import ResourceServer.Http.Verdict
import ResourceServer.Http.Cursors
import ResourceServer.Http.Fragmentation
import ResourceServer.Http.LineEnds
import ResourceServer.Http.Routing
import ResourceServer.Http.Targets
import ResourceServer.Http.Response
import ResourceServer.Http.Handlers
import ResourceServer.Http.Session
import ResourceServer.Http.Codes
import ResourceServer.Http.Framing
import ResourceServer.Http.Safety
import ResourceServer.Http.Mediation
import ResourceServer.Http.HeaderBlock
import ResourceServer.Http.Identifiers
import ResourceServer.Http.Validation
import ResourceServer.Http.Rejections
import ResourceServer.Http.ContentLength
import ResourceServer.Http.Fields
import ResourceServer.Http.Stream
import ResourceServer.Http.Message
import ResourceServer.Http.Conversation
import ResourceServer.Http.Peers
import ResourceServer.Http.Freshness
import ResourceServer.Http.Asking
import ResourceServer.Runtime.ConnectionPool
import ResourceServer.Runtime.Leases
import ResourceServer.Runtime.RedisPool
import ResourceServer.Runtime.Logger
import ResourceServer.Runtime.Wakeups
import ResourceServer.Runtime.ThreadPool
import ResourceServer.Runtime.EventLoop
import ResourceServer.Runtime.Descriptors
import ResourceServer.Runtime.Exclusive
import ResourceServer.Runtime.Backend
import ResourceServer.Runtime.Tenants
import ResourceServer.Runtime.Reports
import ResourceServer.Runtime.Ledger
import ResourceServer.Runtime.Wires
import ResourceServer.Runtime.Quiescence
import ResourceServer.Runtime.Completion
import ResourceServer.Deploy.Migrations
import ResourceServer.Runtime.Teardown
import ResourceServer.Runtime.Shutdown
import ResourceServer.Runtime.Settings
import ResourceServer.Frontend.AuthStore
import ResourceServer.Frontend.Client
import ResourceServer.Frontend.Messages
import ResourceServer.Frontend.Contract
import ResourceServer.Frontend.Outcome
import ResourceServer.Frontend.Upload

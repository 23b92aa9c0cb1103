import Librarian.Foundation.Program
import Librarian.Foundation.Protocol
import Librarian.Foundation.Conversation
import Librarian.Foundation.Expansion
import Librarian.Foundation.Transition
import Librarian.Foundation.Termination
import Librarian.Foundation.Guarded
import Librarian.Foundation.Linearizability
import Librarian.Foundation.RealTime
import Librarian.Foundation.WaitsFor
import Librarian.Foundation.Heap
import Librarian.Foundation.Ranking
import Librarian.Foundation.Decimal
import Librarian.Foundation.Utf8
import Librarian.Foundation.Json
import Librarian.Foundation.Http
import Librarian.Foundation.Target
import Librarian.Domain
import Librarian.Library
import Librarian.Library.Growth
import Librarian.Postgres.Schema
import Librarian.Postgres.Database
import Librarian.Postgres.Footprint
import Librarian.Postgres.Consistency
import Librarian.Postgres.Statements
import Librarian.Postgres.Refusals
import Librarian.Postgres.Migrations
import Librarian.Postgres.Constraints
import Librarian.Postgres.Upgrade
import Librarian.PostgresDocumentRepository
import Librarian.Abstraction
import Librarian.Store.System
import Librarian.Store.Protocol
import Librarian.Store.Safety
import Librarian.Store.Invariant
import Librarian.Store.Changes
import Librarian.Store.Representation
import Librarian.Store.Constraints
import Librarian.Store.Progress
import Librarian.Store.Idempotency
import Librarian.Store.Linearizability
import Librarian.Store.Sessions
import Librarian.Store.Commit
import Librarian.Store.Atomicity
import Librarian.Store.Recognition
import Librarian.Store.Rejection
import Librarian.Store.Timestamps
import Librarian.Store.Search
import Librarian.Store.TopHits
import Librarian.Store.Termination
import Librarian.Store.Completion
import Librarian.Kernel.Responses
import Librarian.Kernel.Port
import Librarian.Kernel.Routes
import Librarian.Kernel.Registration
import Librarian.GetScope
import Librarian.Dispatch
import Librarian.WorkOnce
import Librarian.Pass.Discipline
import Librarian.Pass.Fate
import Librarian.Health
import Librarian.Health.Endpoint
import Librarian.Liveness
import Librarian.Service.System
import Librarian.Service.Safety
import Librarian.Service.ExactlyOnce
import Librarian.Service.Closed
import Librarian.Service.Recovery
import Librarian.Service.Poison
import Librarian.InstanceLease
import Librarian.Lease.System
import Librarian.Lease.Tracking
import Librarian.Lease.Recovery
import Librarian.Lease.Schedule
import Librarian.Process.Loop
import Librarian.Process.System
import Librarian.Process.Lapse
import Librarian.Process.Refinement
import Librarian.Subscriptions
import Librarian.Startup.System
import Librarian.Startup.Duplicates
import Librarian.Config
import Librarian.Startup.Configuration
import Librarian.Deployment.System
import Librarian.Deployment.Enrollment
import Librarian.Deployment.Challenges
import Librarian.Deployment.Startable
import Librarian.KernelClient
import Librarian.Kernel.Wire

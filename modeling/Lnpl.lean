import Lnpl.Backend.Equiv.Guards
import Lnpl.Backend.Equiv.Retry
import Lnpl.Cli.Equiv.Relay
import Lnpl.Drivers.Equiv.Breakers
import Lnpl.Drivers.Equiv.Connections
import Lnpl.Drivers.Equiv.HmacTokenProvider
import Lnpl.Drivers.Equiv.Idempotency
import Lnpl.Drivers.Equiv.KeepAlive
import Lnpl.Drivers.Equiv.NetworkPath
import Lnpl.Drivers.Equiv.Repository
import Lnpl.Drivers.Equiv.RotatingKeys
import Lnpl.Drivers.Equiv.RowVersions
import Lnpl.Drivers.Equiv.WriteCalls
import Lnpl.Front.Equiv.Condition
import Lnpl.Front.Equiv.EventCycles
import Lnpl.Front.Equiv.Parser
import Lnpl.Interp.Equiv.Attempts
import Lnpl.Interp.Equiv.CachedReads
import Lnpl.Interp.Equiv.DecodedInstants
import Lnpl.Interp.Equiv.Dimensions
import Lnpl.Interp.Equiv.Fakes
import Lnpl.Interp.Equiv.Formats
import Lnpl.Interp.Equiv.Instants
import Lnpl.Interp.Equiv.Migrate
import Lnpl.Interp.Equiv.MoneyCodec
import Lnpl.Interp.Equiv.Query
import Lnpl.Interp.Equiv.Readable
import Lnpl.Interp.Equiv.Reassignment
import Lnpl.Interp.Equiv.SharedCache
import Lnpl.Interp.Equiv.Validation
import Lnpl.Lsp.Equiv.Server
import Lnpl.Mcp.Equiv.Http
import Lnpl.Mcp.Equiv.Server
import Lnpl.Protocol.Equiv.Histories
import Lnpl.Protocol.Equiv.Idempotency
import Lnpl.Protocol.Equiv.Lifecycle
import Lnpl.Protocol.Equiv.Structure
import Lnpl.Serve.Equiv.ConsumeResult
import Lnpl.Serve.Equiv.Deliveries
import Lnpl.Serve.Equiv.IfMatch
import Lnpl.Serve.Equiv.Inflight
import Lnpl.Serve.Equiv.Pagination
import Lnpl.Serve.Equiv.Requests
import Lnpl.Serve.Equiv.Routing
import Lnpl.Serve.Equiv.Subscribe
import Lnpl.Serve.Equiv.TokenBucket
import Lnpl.Serve.Equiv.TraceContext
import Lnpl.Spec.Equiv.Accounts

import Pelago.Storage.Node.Unique
import Pelago.Server.Equivalence
import Pelago.Server.Replay
import Pelago.Server.Positions
import Pelago.Storage.Edge.Recovery
import Pelago.Storage.Edge.Termination
import Pelago.Storage.Node.RoundTrip
import Pelago.Api.AdminService
import Pelago.Storage.Retention.Consumers
import Pelago.Storage.RocksCache.Freshness
import Pelago.Storage.WatchState
import Pelago.Storage.SchemaRegistry.Staleness
import Pelago.Storage.SchemaRegistry.Evolution
import Pelago.Server.SchemaReplication
import Pelago.Storage.Edge.Ownership
import Pelago.Query.Spellings
import Pelago.Query.IndexScan
import Pelago.Api.WatchService.Consistency
import Pelago.Api.WatchService.Access
import Pelago.Api.QueryService
import Pelago.Storage.Jobs
import Pelago.Storage.Tuples
import Pelago.Storage.DropType
import Pelago.Storage.IndexBackfill.Restart
import Pelago.Storage.IndexBackfill.Live

import Gzochi.StorageMem.Deadlock
import Gzochi.StorageMem.Grants
import Gzochi.Btree.Readers
import Gzochi.Data.Serializers
import Gzochi.Api.BindingRuns
import Gzochi.DurableTask.ChainRuns
import Gzochi.DataClient.OidStrategy
import Gzochi.DataClient.Freshness
import Gzochi.DataClient.RoundTrips
import Gzochi.Tools.DumpLoad
import Gzochi.Tools.Migrate
import Gzochi.Managed.SequenceLists
import Gzochi.Managed.Primitives
import Gzochi.Lru.Lookups
import Gzochi.Channel.Deliveries
import Gzochi.Resolver.Resolution
import Gzochi.Queue.Runs
import Gzochi.DataServer.Requests
import Gzochi.Session.SideEffects
import Gzochi.Session.Removal
import Gzochi.Game.Messages
import Gzochi.Game.Reports
import Gzochi.DataServer.Answers
import Gzochi.GlibClient.Messages
import Gzochi.Auth.PasswordFile
import Gzochi.GuileClient.Login
import Gzochi.StorageMem.Links
import Gzochi.DataClient.KeyIteration
import Gzochi.Btree.KeyOrder
import Gzochi.DataClient.OidResponses
import Gzochi.Itree.Balance
import Gzochi.Itree.Maxima
import Gzochi.LockMem.Decisions
import Gzochi.Tx.Outcomes
import Gzochi.Managed.Lists
import Gzochi.Socket.Connections
import Gzochi.Fsm.Requests
import Gzochi.Session.Persistence
import Gzochi.MainLoop.Iteration
import Gzochi.DataClient.Deletions
import Gzochi.Btree.PageBlock
import Gzochi.Serialization.Records

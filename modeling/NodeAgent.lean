import NodeAgent.Lib.Prog
import NodeAgent.Lib.Exec
import NodeAgent.Lib.Group
import NodeAgent.Lib.Pool
import NodeAgent.Domain
import NodeAgent.Store
import NodeAgent.EntryProxy
import NodeAgent.Backends
import NodeAgent.Singboxgen
import NodeAgent.Ports
import NodeAgent.World
import NodeAgent.Flip
import NodeAgent.Executor.Basic
import NodeAgent.Executor.EntryProxyActions
import NodeAgent.Executor.FlipExecutor
import NodeAgent.Jsonv1
import NodeAgent.Applier
import NodeAgent.Executor.EntryProxySpec
import NodeAgent.Executor.FlipSpec
import NodeAgent.ApplierSpec
import NodeAgent.Entry.Success
import NodeAgent.Entry.Sequential
import NodeAgent.Entry.Users
import NodeAgent.Entry.Routes
import NodeAgent.Executor.RebuildSpec
import NodeAgent.Entry.Rebuild
import NodeAgent.Executor.BackendExecutor
import NodeAgent.Backend.Revocation
import NodeAgent.Snapshot.Consumer
import NodeAgent.Snapshot.Prune
import NodeAgent.Entry.Resurrection
import NodeAgent.Executor.EntryActions
import NodeAgent.Executor.Coalescer
import NodeAgent.ApplierEvents
import NodeAgent.Snapshot.NilMap
import NodeAgent.Xray.Memberships
import NodeAgent.Traffic.Attribution
import NodeAgent.External.Closure
import NodeAgent.Singboxgen.Routing
import NodeAgent.External.Selector
import NodeAgent.External.Reload
import NodeAgent.External.Deactivation
import NodeAgent.Snapshot.Report
import NodeAgent.Snapshot.Exact
import NodeAgent.Backend.Resync
import NodeAgent.Flip.Phases
import NodeAgent.Entry.Epoch
import NodeAgent.Entry.Deferred
import NodeAgent.Wgmesh.SelfHeal
import NodeAgent.Traffic.Conservation
import NodeAgent.Applier.Record
import NodeAgent.Applier.Converge
import NodeAgent.Lib.Shard
import NodeAgent.Nats.Subscribe
import NodeAgent.Applier.Sharded
import NodeAgent.Records
import NodeAgent.Executor.FlushSpec
import NodeAgent.External.Together
import NodeAgent.External.Answers
import NodeAgent.Singboxgen.Absorb
import NodeAgent.Singboxgen.Frame
import NodeAgent.Singboxgen.Graph
import NodeAgent.Singboxgen.Order
import NodeAgent.External.Revoked
import NodeAgent.External.Poison
import NodeAgent.Applier.Versions
import NodeAgent.Snapshot.Concurrent
import NodeAgent.Xray.Removal
import NodeAgent.Backend.Members
import NodeAgent.EntryProxy.Ranking
import NodeAgent.EntryProxy.Health
import NodeAgent.Backends.Renderable
import NodeAgent.Badger.Codec
import NodeAgent.Protov1.Heartbeat
import NodeAgent.Traffic.Agreement
import NodeAgent.Lib.Runs
import NodeAgent.Traffic.Telescope
import NodeAgent.Traffic.Stats
import NodeAgent.Flip.Drain
import NodeAgent.EntryProxy.Dial
import NodeAgent.Snapshot.Synced
import NodeAgent.Lib.Since
import NodeAgent.Lib.Slice
import NodeAgent.Backends.History
import NodeAgent.Lib.Protowire
import NodeAgent.Xray.Account
import NodeAgent.Lib.Search
import NodeAgent.Xray.Stats
import NodeAgent.Lib.Codec
import NodeAgent.EntryProxy.Controller
import NodeAgent.EntryProxy.Control
import NodeAgent.Lib.Typestate
import NodeAgent.EntryProxy.Connections
import NodeAgent.EntryProxy.Draining
import NodeAgent.EntryProxy.Relay
import NodeAgent.EntryProxy.Splice
import NodeAgent.Lib.FileSys
import NodeAgent.Lib.Crash
import NodeAgent.Singbox.WriteConfig
import NodeAgent.Lib.Base64
import NodeAgent.Wg.Key
import NodeAgent.Lib.Protomsg
import NodeAgent.Badger.Wire
import NodeAgent.Lib.Keyspace
import NodeAgent.Badger.Store
import NodeAgent.Bootstrap
import NodeAgent.Snapshot.SelfHeal
import NodeAgent.Jsonv1.Remarshal

import RespProxy.Lib.Interact
import RespProxy.Lib.Decimal
import RespProxy.Lib.Group
import RespProxy.Lib.Shard
import RespProxy.Lib.Machine
import RespProxy.Lib.Threads
import RespProxy.Lib.World
import RespProxy.Lib.Lease
import RespProxy.Lib.Crc
import RespProxy.Lib.Scan
import RespProxy.Resp.Value
import RespProxy.Resp.Reader
import RespProxy.Resp.Tree
import RespProxy.Resp.Request
import RespProxy.Resp.Reencode
import RespProxy.Resp.Roundtrip
import RespProxy.Resp.Cut
import RespProxy.Resp.Alloc
import RespProxy.Command.Table
import RespProxy.Command.Keys
import RespProxy.Command.Db
import RespProxy.Command.Prefixes
import RespProxy.Command.Indexes
import RespProxy.Command.Translate
import RespProxy.Command.Arguments
import RespProxy.Command.Patterns
import RespProxy.Command.Grammar
import RespProxy.Cluster.Slot
import RespProxy.Cluster.Checksum
import RespProxy.Cluster.Loops
import RespProxy.Cluster.Topology
import RespProxy.Cluster.Router
import RespProxy.Cluster.Checkout
import RespProxy.Cluster.Map
import RespProxy.Cluster.Bounds
import RespProxy.Cluster.Updates
import RespProxy.Cluster.Masters
import RespProxy.Cluster.Replicas
import RespProxy.Cluster.Layout
import RespProxy.Cluster.Registry
import RespProxy.Pool
import RespProxy.Pool.Bound
import RespProxy.Env
import RespProxy.Proxy.Session
import RespProxy.Proxy.PubSub
import RespProxy.Proxy.Handle
import RespProxy.Proxy.Server
import RespProxy.Proxy.Databases
import RespProxy.Proxy.Pipeline
import RespProxy.Proxy.Loans
import RespProxy.Proxy.Balance
import RespProxy.Proxy.Frames
import RespProxy.Backend.Keyspace
import RespProxy.Backend.Nodes
import RespProxy.Proxy.Sends
import RespProxy.Proxy.Tags
import RespProxy.Proxy.Batch
import RespProxy.Proxy.Run
import RespProxy.Proxy.Names
import RespProxy.Proxy.Feed
import RespProxy.Proxy.Window
import RespProxy.Proxy.Relay
import RespProxy.Proxy.Conclude
import RespProxy.Proxy.Replies
import RespProxy.Proxy.Hops
import RespProxy.Proxy.Demux
import RespProxy.Proxy.Drain
import RespProxy.Proxy.Refuse
import RespProxy.Proxy.Panic
import RespProxy.Proxy.Redirect
import RespProxy.Proxy.Gate
import RespProxy.Proxy.Auth
import RespProxy.Proxy.Fanout
import RespProxy.Proxy.Mset
import RespProxy.Proxy.Subscribe
import RespProxy.Proxy.Watch
import RespProxy.Proxy.Protect
import RespProxy.Proxy.Queue
import RespProxy.Proxy.Merge
import RespProxy.Proxy.Commit
import RespProxy.Proxy.Transfer
import RespProxy.Proxy.Interference
import RespProxy.Proxy.Flush
import RespProxy.Proxy.Fleet
import RespProxy.Backend.Site
import RespProxy.Proxy.Serial
import RespProxy.Proxy.Plan
import RespProxy.Proxy.Order
import RespProxy.PubSub.Machine
import RespProxy.PubSub.Phase
import RespProxy.PubSub.Acks
import RespProxy.PubSub.Leave
import RespProxy.PubSub.Close
import RespProxy.PubSub.Count
import RespProxy.PubSub.Kinds
import RespProxy.Lib.Custody
import RespProxy.Pool.Ledger

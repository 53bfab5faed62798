import MuduoNet.Lib.Machine
import MuduoNet.Base
import MuduoNet.Buffer.Basic
import MuduoNet.Buffer.Spec
import MuduoNet.Buffer.Refine
import MuduoNet.Channel
import MuduoNet.Tcp.Connection
import MuduoNet.Tcp.Output
import MuduoNet.Poller.Basic
import MuduoNet.Poller.Consistent
import MuduoNet.Poller.Interest
import MuduoNet.Codec.Basic
import MuduoNet.Lib.Framing
import MuduoNet.Codec.Parse
import MuduoNet.Codec.Stream
import MuduoNet.Codec.RoundTrip
import MuduoNet.Lib.OrdSet
import MuduoNet.Timer.Basic
import MuduoNet.Timer.Loop
import MuduoNet.Timer.Owned
import MuduoNet.Timer.Armed
import MuduoNet.Timer.Fire
import MuduoNet.Timer.Cancel
import MuduoNet.EventLoop.Basic
import MuduoNet.EventLoop.Steps
import MuduoNet.EventLoop.Wakeup
import MuduoNet.Lib.Trace
import MuduoNet.EventLoop.Queue
import MuduoNet.EventLoop.Quit
import MuduoNet.Tcp.Shutdown
import MuduoNet.Lib.Held
import MuduoNet.Tcp.Threads
import MuduoNet.Tcp.Overtake
import MuduoNet.Poller.Registry
import MuduoNet.Tcp.Effects
import MuduoNet.Net.Basic
import MuduoNet.Net.Machine
import MuduoNet.Net.Frame
import MuduoNet.Net.Inv
import MuduoNet.Net.Ordinary
import MuduoNet.Net.Lifecycle
import MuduoNet.Net.Threads
import MuduoNet.Net.Owners
import MuduoNet.Net.Runs
import MuduoNet.Net.Closing
import MuduoNet.Net.OffPoller
import MuduoNet.Lib.Int64
import MuduoNet.Lib.Rank
import MuduoNet.Median.Kth
import MuduoNet.Median.Sorter
import MuduoNet.Median.Collector
import MuduoNet.Lib.Tickets
import MuduoNet.Lib.Fields
import MuduoNet.Rpc.Message
import MuduoNet.Rpc.Balancer
import MuduoNet.Rpc.Translation
import MuduoNet.Rpc.Channel
import MuduoNet.Rpc.End
import MuduoNet.Rpc.Bookkeeping
import MuduoNet.Rpc.Replies
import MuduoNet.Rpc.Wire
import MuduoNet.Rpc.Input
import MuduoNet.Rpc.Serving
import MuduoNet.Rpc.Link
import MuduoNet.Rpc.Delivery
import MuduoNet.Rpc.EndToEnd
import MuduoNet.Net.Calls
import MuduoNet.Rpc.Server
import MuduoNet.Rpc.Lifetime
import MuduoNet.Net.Pointers
import MuduoNet.Net.Dangling
import MuduoNet.Connector.Basic
import MuduoNet.Buffer.Shrink
import MuduoNet.Median.Overflow
import MuduoNet.Timer.Repeat
import MuduoNet.Codec.Checksum
import MuduoNet.Codec.Canonical
import MuduoNet.Rpc.Failed
import MuduoNet.Tcp.Complete
import MuduoNet.Connector.Steps
import MuduoNet.Connector.Sockets
import MuduoNet.Connector.Stopped
import MuduoNet.Connector.Timers
import MuduoNet.Connector.Orderly
import MuduoNet.Connector.Teardown
import MuduoNet.Net.Keeping
import MuduoNet.Net.Teardown
import MuduoNet.Buffer.Growth
import MuduoNet.Median.Answers
import MuduoNet.Lib.Rotation
import MuduoNet.Rpc.Dispatch
import MuduoNet.Connector.Disconnected
import MuduoNet.Tcp.Session
import MuduoNet.Tcp.Commands
import MuduoNet.Tcp.Peers
import MuduoNet.Tcp.Applications
import MuduoNet.Codec.Dispatcher
import MuduoNet.Codec.Application
import MuduoNet.Lib.Records
import MuduoNet.Generated.Basic
import MuduoNet.Generated.Merge
import MuduoNet.Generated.RoundTrip
import MuduoNet.Generated.Parse
import MuduoNet.Generated.Wire
import MuduoNet.Generated.Classes
import MuduoNet.Generated.Pool
import MuduoNet.Codec.Query
import MuduoNet.Lib.Potential
import MuduoNet.EventLoop.Thread
import MuduoNet.EventLoop.Join
import MuduoNet.Median.Rounds
import MuduoNet.Net.Spread
import MuduoNet.Connector.Backoff
import MuduoNet.Rpc.Completion
import MuduoNet.Rpc.Generated
import MuduoNet.Rpc.Sudoku

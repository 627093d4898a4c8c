import GoUring.Foundation.Runs
import GoUring.Foundation.CounterRing
import GoUring.Foundation.BoundedFifo
import GoUring.Foundation.Correlation
import GoUring.Foundation.GoMemory
import GoUring.Uring.Syscall
import GoUring.Uring.Operation
import GoUring.Uring.SubmissionQueue
import GoUring.Uring.SubmissionRun
import GoUring.Uring.CompletionQueue
import GoUring.Uring.Ring
import GoUring.Uring.Consumer
import GoUring.Uring.CompletionRun
import GoUring.Reactor.Registry
import GoUring.Reactor.RequestTable
import GoUring.Reactor.Engine
import GoUring.Reactor.Shutdown
import GoUring.Reactor.NetReactor
import GoUring.Reactor.NetLedger
import GoUring.Reactor.NetEffect
import GoUring.Reactor.NetDispatch
import GoUring.Reactor.NetDelivery
import GoUring.Reactor.NetLoops
import GoUring.Reactor.EventReactor
import GoUring.Reactor.EventMoves
import GoUring.Reactor.EventSubmit
import GoUring.Reactor.EventEffect
import GoUring.Reactor.EventDispatch
import GoUring.Uring.WaitLoop
import GoUring.Uring.WaitResult
import GoUring.Reactor.Handshake
import GoUring.Reactor.EventDeadline
import GoUring.Reactor.NetCancel
import GoUring.Reactor.NetFlight
import GoUring.Reactor.NetEntries
import GoUring.Net.Conn
import GoUring.Net.ConnCalls
import GoUring.Net.ConnOwner
import GoUring.Net.ConnDeadline
import GoUring.Net.Listener
import GoUring.Net.ListenerAccept
import GoUring.Foundation.WaitGraph
import GoUring.Reactor.Reentrant
import GoUring.Reactor.ReentrantDeadlock
import GoUring.Foundation.LittleEndian
import GoUring.Uring.Register
import GoUring.Uring.Encoding
import GoUring.Foundation.Custody
import GoUring.Uring.Setup
import GoUring.Uring.WorkerPools
import GoUring.Uring.SetupLeaks
import GoUring.Uring.SubmitCount
import GoUring.Net.WriteStream
import GoUring.Net.QueueDeadline
import GoUring.Uring.Overflow
import GoUring.Uring.TimedWait
import GoUring.Uring.InternalTimeouts
import GoUring.Uring.OwnTimeout
import GoUring.Uring.Layout
import GoUring.Reactor.Sharding
import GoUring.Uring.SlotReuse
import GoUring.Uring.TwoSides
import GoUring.Reactor.Interference
import GoUring.Foundation.StoreBuffer
import GoUring.Uring.Publication
import GoUring.Reactor.NetOrder
import GoUring.Uring.Wakeup
import GoUring.Foundation.ByteMemory
import GoUring.Uring.ByteRing
import GoUring.Uring.ByteRun
import GoUring.Foundation.Handles
import GoUring.Net.Descriptors
import GoUring.Foundation.Collector
import GoUring.Net.Lifetime
import GoUring.Example.EchoRun
import GoUring.Example.EchoStream

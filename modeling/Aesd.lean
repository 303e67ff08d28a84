import Aesd.Library.Delimited
import Aesd.Library.Interleaving
import Aesd.Library.Linearization
import Aesd.Library.LinkedList
import Aesd.Library.Locate
import Aesd.Library.Numeral
import Aesd.Library.Transition
import Aesd.Library.Window
import Aesd.Heap
import Aesd.CircularBuffer
import Aesd.RingQueue
import Aesd.Device
import Aesd.Journal
import Aesd.WriteRefinement
import Aesd.DeviceRefinement
import Aesd.Ownership
import Aesd.Chunking
import Aesd.Leaks
import Aesd.Seek
import Aesd.Size
import Aesd.FailedWrite
import Aesd.Readout
import Aesd.Drain
import Aesd.SeekOrder
import Aesd.Server
import Aesd.ServerSteps
import Aesd.Mutex
import Aesd.Descriptors
import Aesd.Input
import Aesd.Lines
import Aesd.Solo
import Aesd.Requests
import Aesd.Thread
import Aesd.Balance
import Aesd.Progress
import Aesd.ReceiveLoop
import Aesd.Process
import Aesd.Lifecycle
import Aesd.Reply
import Aesd.Session
import Aesd.SeekRequest
import Aesd.Calls
import Aesd.Interference
import Aesd.CallSteps
import Aesd.Atomicity
import Aesd.Concurrency
import Aesd.Linearizability
import Aesd.Alone
import Aesd.Provenance
import Aesd.Conversation
import Aesd.Answers
import Aesd.NodeList
import Aesd.NodeRefinement
import Aesd.NodeSafety
import Aesd.Loading
import Aesd.LoadingRefinement
import Aesd.Reloading
import Aesd.Startup
import Aesd.Shutdown
import Aesd.AddrInfo
import Aesd.Serving
import Aesd.DebugPrint

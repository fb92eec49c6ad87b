import Ipcpp.Event.Agreement
import Ipcpp.Event.Counter
import Ipcpp.Event.Delivery
import Ipcpp.Event.DomainSocket
import Ipcpp.Event.SocketSets
import Ipcpp.Fifo.Calls
import Ipcpp.Fifo.Message
import Ipcpp.Fifo.MessageQueue
import Ipcpp.Fifo.Queue
import Ipcpp.Fifo.Readers
import Ipcpp.Joining
import Ipcpp.Lib.Answers
import Ipcpp.Lib.Chunks
import Ipcpp.Lib.Counting
import Ipcpp.Lib.Memory
import Ipcpp.Lib.Guarantee
import Ipcpp.Lib.Lifetimes
import Ipcpp.Lib.Log
import Ipcpp.Lib.Pages
import Ipcpp.Lib.Prog
import Ipcpp.Lib.Runs
import Ipcpp.Lib.Registry
import Ipcpp.Lib.Ring
import Ipcpp.Lib.Sections
import Ipcpp.Lib.Slices
import Ipcpp.Numeric
import Ipcpp.RealTime.Accounting
import Ipcpp.RealTime.Calls
import Ipcpp.RealTime.Crash
import Ipcpp.RealTime.Entries
import Ipcpp.RealTime.EntrySearch
import Ipcpp.RealTime.FailedFetch
import Ipcpp.RealTime.Freshness
import Ipcpp.RealTime.Index
import Ipcpp.RealTime.Init
import Ipcpp.RealTime.Layout
import Ipcpp.RealTime.Limit
import Ipcpp.RealTime.Message
import Ipcpp.RealTime.Register
import Ipcpp.RealTime.Safety
import Ipcpp.RealTime.Search
import Ipcpp.RealTime.Steps
import Ipcpp.Rounding
import Ipcpp.Shm.Allocator
import Ipcpp.Shm.AllocatorRuns
import Ipcpp.Shm.ChunkAllocator
import Ipcpp.Shm.ChunkLayout
import Ipcpp.Shm.List
import Ipcpp.Shm.MappedMemory
import Ipcpp.Shm.Queue
import Ipcpp.Shm.RingBuffer
import Ipcpp.Shm.SharedMemoryFile
import Ipcpp.Stl.Allocator
import Ipcpp.Stl.Blocks
import Ipcpp.Stl.Canonical
import Ipcpp.Stl.ChunkList
import Ipcpp.Stl.ElementValues
import Ipcpp.Stl.Elements
import Ipcpp.Stl.EntryPoints
import Ipcpp.Stl.Factory
import Ipcpp.Stl.FirstFit
import Ipcpp.Stl.FixedSizeMemory
import Ipcpp.Stl.FixedSizeQueue
import Ipcpp.Stl.FixedSizeStack
import Ipcpp.Stl.FixedString
import Ipcpp.Stl.FixedStringEdits
import Ipcpp.Stl.FixedStringSearch
import Ipcpp.Stl.FreeRuns
import Ipcpp.Stl.Lifetimes
import Ipcpp.Stl.Merge
import Ipcpp.Stl.ObjectCalls
import Ipcpp.Stl.Objects
import Ipcpp.Stl.Optional
import Ipcpp.Stl.OutOfMemory
import Ipcpp.Stl.PoolInvariant
import Ipcpp.Stl.Requests
import Ipcpp.Stl.Runtime
import Ipcpp.Stl.SelfInsert
import Ipcpp.Stl.StrongGuarantee
import Ipcpp.Stl.TrivialElements
import Ipcpp.Stl.Vector
import Ipcpp.Stl.VectorAssign
import Ipcpp.Stl.VectorCapacity
import Ipcpp.Stl.VectorErase
import Ipcpp.Stl.VectorInsert
import Ipcpp.Stl.VectorLists
import Ipcpp.Stl.VectorOps
import Ipcpp.Stl.VectorRuns
import Ipcpp.Stl.VectorShift
import Ipcpp.Stl.VectorSpec
import Ipcpp.Stl.VectorSteps
import Ipcpp.Stl.VectorStorage
import Ipcpp.Sync.Futex
import Ipcpp.Sync.SharedMutex
import Ipcpp.Sync.Sleep
import Ipcpp.Topic
import Ipcpp.Utils.FileLock
import Ipcpp.Utils.LinkedList
import Ipcpp.Utils.ReferenceCounted
import Ipcpp.Utils.Synchronized
import Ipcpp.Stl.Sharing
import Ipcpp.Stl.Sizes

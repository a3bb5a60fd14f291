import Workbench.Lib.Dict
import Workbench.Lib.Greedy
import Workbench.Python.Value
import Workbench.Bios.Plan
import Workbench.Bios.Exec
import Workbench.Bios.Cycles
import Workbench.Bios.Select
import Workbench.Bios.Recovery
import Workbench.Bios.Restart
import Workbench.Iface.ProtectionGroups
import Workbench.Iface.SpaListing
import Workbench.Iface.NsiAlloc
import Workbench.Iface.OltIsolate
import Workbench.Alloc.VsaFirstFit
import Workbench.Alloc.FsaSizes
import Workbench.Queue.Spsc
import Workbench.Queue.MpmcRuns
import Workbench.Tree.AvlCalls
import Workbench.Tree.AvlWalks
import Workbench.Lib.BitTrie
import Workbench.Dhcp.Addresses
import Workbench.Dhcp.Frees
import Workbench.Dhcp.Create
import Workbench.Lib.Decimal
import Workbench.Dhcp.IpText
import Workbench.Lib.Bracketed
import Workbench.Calc.Accepts
import Workbench.Calc.Evaluates
import Workbench.Calc.Untrusted
import Workbench.Linked.Pqueue
import Workbench.Sched.Order
import Workbench.Sched.Lifecycle
import Workbench.Lib.BinaryHeap
import Workbench.Heap.Order
import Workbench.Heap.Interchange
import Workbench.Heap.MinHeap
import Workbench.Heap.RemoveFirst
import Workbench.Heap.DynamicVector
import Workbench.Sched.HeapScheduler
import Workbench.Lib.TreeContext
import Workbench.Lib.Trim
import Workbench.Tree.BstChanges
import Workbench.Tree.BstRuns
import Workbench.Tree.BstLinked
import Workbench.Tree.BstSearch
import Workbench.Lib.Refines
import Workbench.Buffer.CircularBuffer
import Workbench.Buffer.CircularRuns
import Workbench.Lib.Segment
import Workbench.Linked.Slist
import Workbench.Lib.ForEach
import Workbench.Linked.Chain
import Workbench.Linked.SlistForEach
import Workbench.Linked.SlistRuns
import Workbench.Linked.Queue
import Workbench.Linked.QueueRuns
import Workbench.Linked.Splice
import Workbench.Linked.Merge
import Workbench.Hash.Hash
import Workbench.Lib.Blocks
import Workbench.Hash.Create
import Workbench.Hash.HashRuns
import Workbench.Producers.BoundedFsq
import Workbench.Games.Prisoners
import Workbench.Games.TicTacToe
import Workbench.Producers.Handshake
import Workbench.Producers.Messages
import Workbench.Producers.LockedList
import Workbench.Producers.OverwritingFsq
import Workbench.Producers.WaitableFsq
import Workbench.Producers.ThreadPool
import Workbench.Handles.RcString
import Workbench.Handles.SharedPtr
import Workbench.Handles.Singleton
import Workbench.Buffer.BitArray
import Workbench.Buffer.BitCount
import Workbench.Buffer.BitReaders
import Workbench.Buffer.BitWriters
import Workbench.Events.Dispatcher
import Workbench.Events.NbdProxy
import Workbench.Events.Reactor
import Workbench.Queue.MpmcSequential
import Workbench.Linked.PqueueRuns
import Workbench.Producers.WaitableQueue
import Workbench.Iface.SpaSearch
import Workbench.Iface.BngWorkload
import Workbench.Iface.IpPool
import Workbench.Iface.ModuleMgmt
import Workbench.Iface.SvcProvApp
import Workbench.Bios.Defaults
import Workbench.Bios.Versions
import Workbench.Sorts.Agree
import Workbench.Sorts.Dictionary
import Workbench.Sorts.Quick
import Workbench.Sorts.Counting
import Workbench.Sorts.Radix
import Workbench.Sorts.BinarySearch
import Workbench.Sorts.IntSearch
import Workbench.Lib.Pieces
import Workbench.Text.Lines
import Workbench.Text.LetterCount
import Workbench.Lib.Positional
import Workbench.Text.AnyBase
import Workbench.Lib.Circle
import Workbench.Linked.Josephus
import Workbench.Events.Broadcast
import Workbench.Events.Transfer
import Workbench.Lib.PathCover
import Workbench.Knight.Moves
import Workbench.Knight.BackTracking
import Workbench.Knight.Warnsdorff
import Workbench.Buffer.BitsArr
import Workbench.Heap.MinHeapSifts
import Workbench.Text.Strcat
import Workbench.Text.RemoveExtraWS
import Workbench.Text.Strcasecmp
import Workbench.Text.Strstr
import Workbench.Sorts.StackSort
import Workbench.Lib.Follow
import Workbench.Games.MagicNum
import Workbench.Lib.Space
import Workbench.Buffer.MemCalls
import Workbench.Linked.Intersection
import Workbench.Linked.Flip
import Workbench.Json.NsFilter
import Workbench.Json.PrintDiff

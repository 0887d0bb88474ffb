import Cs444.Lib.IntervalSet
import Cs444.Slob.Cells
import Cs444.Slob.PageAlloc
import Cs444.Slob.PageCommit
import Cs444.Slob.PageFree
import Cs444.Lib.Ring
import Cs444.Slob.Heap
import Cs444.Slob.PageOps
import Cs444.Slob.FreeOps
import Cs444.Slob.Invariant
import Cs444.Slob.AllocOps
import Cs444.Slob.Run
import Cs444.Slob.FreeList
import Cs444.Slob.Counters
import Cs444.Sstf.Cursor
import Cs444.Lib.Blockwise
import Cs444.Osurd.Driver
import Cs444.Osurd.Simple
import Cs444.Osurd.Modes
import Cs444.Osurd.Plans
import Cs444.Osurd.Agreement
import Cs444.Lib.PrioTable
import Cs444.SchedRt.Model
import Cs444.SchedRt.Entity
import Cs444.SchedRt.Groups
import Cs444.SchedRt.Stack
import Cs444.SchedRt.Run
import Cs444.Lib.Interleaving
import Cs444.Prob1.Threads
import Cs444.Prob1.Deadlock
import Cs444.Prob2.Santa
import Cs444.Prob2.Groups
import Cs444.Prob2.Elves
import Cs444.Prob2.Helping
import Cs444.Concurrency3.Threads
import Cs444.Concurrency3.Exclusion
import Cs444.SchedRt.Bandwidth
import Cs444.SchedRt.Lending
import Cs444.Concurrency4.Barber
import Cs444.Concurrency4.Haircuts
import Cs444.Osurd.Media
import Cs444.Osurd.Handles
import Cs444.Prob2.Wakeups
import Cs444.Prob2.Calls
import Cs444.Prob2.Signals
import Cs444.Prob2.Progress
import Cs444.Prob2.Stuck
import Cs444.Lib.Linked
import Cs444.Slob.Pages
import Cs444.Slob.Lists
import Cs444.SchedRt.Callbacks
import Cs444.SchedRt.Steady
import Cs444.SchedRt.Overload
import Cs444.SchedRt.Pushable
import Cs444.SchedRt.Cpupri
import Cs444.SchedRt.Standing
import Cs444.SchedRt.Record
import Cs444.Prob1.Groups
import Cs444.Concurrency3.Nodes
import Cs444.Concurrency3.Refine
import Cs444.Concurrency3.Linear
import Cs444.Slob.BestFit
import Cs444.Lib.Cyclic
import Cs444.Sstf.Order
import Cs444.Sstf.Seek
import Cs444.Osurd.Requests
import Cs444.Lib.Ledger
import Cs444.Osurd.Lifetime
import Cs444.Osurd.Capacity
import Cs444.SchedRt.Highest
import Cs444.SchedRt.RoundRobin
import Cs444.SchedRt.RootDomains
import Cs444.SchedRt.Push
import Cs444.Prob2.Sleigh
import Cs444.Concurrency1.Buffer
import Cs444.Concurrency1.Consume
import Cs444.Lib.Bytes
import Cs444.Slob.Frontend
import Cs444.Slob.Backing
import Cs444.Slob.Objects
import Cs444.Slob.Calls
import Cs444.Slob.Kmalloc
import Cs444.Slob.KmemCache
import Cs444.Prob2.Cardinality
import Cs444.Lib.Owners
import Cs444.SchedRt.CpupriExact
import Cs444.Slob.Sections
import Cs444.Slob.SmpSafe
import Cs444.Lib.Rings
import Cs444.Plist.Levels
import Cs444.Plist.Lists
import Cs444.Plist.Runs
import Cs444.Plist.SelfTest
import Cs444.Lib.Locks
import Cs444.SchedRt.Balance
import Cs444.SchedRt.BalanceProgress
import Cs444.SchedRt.BalanceAlone

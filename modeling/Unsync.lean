import Unsync.Lib.Runs
import Unsync.Lib.Simulation
import Unsync.Lib.DoublyLinked
import Unsync.Lib.Greedy
import Unsync.Lib.Slab
import Unsync.Lib.Turns
import Unsync.Lib.Stamps
import Unsync.Lib.Executor
import Unsync.Base
import Unsync.Wakes
import Unsync.Tasks
import Unsync.VecDeque
import Unsync.BiRc
import Unsync.BroadRc
import Unsync.WaitList.Queue
import Unsync.WaitList.Model
import Unsync.WaitList.Refine
import Unsync.WaitList.Places
import Unsync.WaitList.Runs
import Unsync.WaitList.Handover
import Unsync.WaitList.Latest
import Unsync.WaitList.Guards
import Unsync.WaitList.Mutex
import Unsync.WaitList.Lockers
import Unsync.Semaphore.Model
import Unsync.Semaphore.Release
import Unsync.Semaphore.Wakers
import Unsync.Semaphore.Runs
import Unsync.Semaphore.Stranded
import Unsync.Semaphore.Arrival
import Unsync.Semaphore.Handoff
import Unsync.Semaphore.Linked
import Unsync.Semaphore.Tasks
import Unsync.OnceCell.Model
import Unsync.OnceCell.Baton
import Unsync.OnceCell.Runs
import Unsync.OnceCell.Agreement
import Unsync.OnceCell.Polls
import Unsync.OnceCell.Register
import Unsync.OnceCell.Tasks
import Unsync.OnceCell.Linked
import Unsync.Oneshot.Model
import Unsync.Oneshot.Runs
import Unsync.Spsc.Model
import Unsync.Spsc.Runs
import Unsync.Spsc.Fifo
import Unsync.Spsc.Wake
import Unsync.Spsc.Capacity
import Unsync.Spsc.Tasks
import Unsync.Broadcast.Model
import Unsync.Broadcast.Runs
import Unsync.Broadcast.Pass
import Unsync.Broadcast.Ids
import Unsync.Broadcast.Alike
import Unsync.Broadcast.Delivery
import Unsync.Broadcast.Room
import Unsync.Broadcast.Wake
import Unsync.Broadcast.Slots
import Unsync.Broadcast.Capacity
import Unsync.Broadcast.Ages
import Unsync.Broadcast.Tasks
import Unsync.Requests
import Unsync.Capacity
import Unsync.Uncontended

import Yalnix.FrameTable

/-!
# The kernel state

Process control blocks are stored field by field: each field is a map from
block addresses, so that an assignment through a pointer changes one map at
one address. Intrusive queues are lists of the blocks linked on them. The
saved kernel context of a process is the point of the kernel sources at which
its kernel stack continues. The log and the stamps are history variables: no
kernel decision reads them.
-/

namespace Yalnix.KernelState

open Framework FrameTable

/-- Address of a queue on which processes block. -/
inductive QueueAddr
  | readers (pipe : ℕ)
  | lockWaiters (lock : ℕ)
  | cvarWaiters (cvar : ℕ)
  | readQueue (tty : ℕ)
  | writeQueue (tty : ℕ)
  deriving DecidableEq, Repr

/-- Where a saved kernel stack continues. The stamps name the objects that
the identifiers denoted when the call blocked. -/
inductive KernelPoint
  /-- The process is executing; nothing is saved. -/
  | executing
  /-- KernelStart, behind the switch to the initial process. -/
  | boot
  /-- TrapClock, which goes on behind ProcessSchedule. -/
  | clock
  /-- SysFork, behind the cloning of the kernel context. -/
  | fork (child : PcbPtr)
  /-- SysWait, which goes on behind ProcessSchedule. -/
  | wait (statusPtr : ℕ)
  /-- SysDelay, which goes on behind ProcessSchedule. -/
  | delay
  /-- SysTtyRead, which goes on behind ProcessSchedule. -/
  | ttyRead (tty : ℕ)
  /-- SysTtyWrite, which goes on behind ProcessSchedule. -/
  | ttyWrite (tty : ℕ) (len : ℤ)
  /-- SysPipeRead, which goes on behind BlockOnQueue. -/
  | pipeRead (pipeId : ℤ) (buf : ℕ) (len : ℤ) (opened : ℕ)
  /-- LockAcquire, which goes on behind BlockOnQueue. -/
  | acquire (lockId : ℤ) (opened : ℕ)
  /-- SysCvarWait, which goes on behind BlockOnQueue. -/
  | cvarWait (cvarId lockId : ℤ) (cvarOpened lockOpened : ℕ)
  /-- ProcessExitCurrent, which must not go on behind ProcessSchedule. -/
  | exited
  deriving DecidableEq, Repr

/-- A saved kernel context: the local of TrapKernel and the continuation. -/
structure KernelContext where
  /-- The process that entered TrapKernel on this stack. -/
  caller : PcbPtr
  /-- The point at which the stack continues. -/
  point : KernelPoint
  deriving DecidableEq, Repr

/-- A line received from a terminal, as far as it has been read. -/
structure TtyLine where
  /-- Stamp of the receive trap. -/
  stamp : ℕ
  /-- The number of bytes of the line. -/
  len : ℕ
  /-- Bytes already copied out. -/
  pos : ℕ
  /-- The bytes of the line. -/
  data : ℕ → UInt8

/-- The part of a process control block used by terminal calls. -/
structure TtyRequest where
  /-- Terminal of the last call. -/
  ttyId : ℕ
  /-- Destination of a read. -/
  readBuf : ℕ
  /-- Length of a read. -/
  readLen : ℕ
  /-- Line handed to a woken reader. -/
  readLine : Option TtyLine
  /-- Kernel copy of a write. -/
  writeBuf : ℕ → UInt8
  /-- Length of a write. -/
  writeLen : ℕ
  /-- Bytes of a write already transmitted. -/
  writeOffset : ℕ

/-- The part of a process control block that describes its memory. -/
structure UserSpace where
  /-- Region 1 page table. -/
  region1Pt : PageTable
  /-- Frames of the kernel stack. -/
  kernelStackPfns : ℕ → ℕ
  /-- The current break of the heap. -/
  userBrk : ℕ
  /-- The lowest break that is allowed. -/
  userHeapStart : ℕ
  /-- Lowest mapped stack page. -/
  userStackLowPage : ℤ

/-- The state of a pipe, with the stamp of its creation. -/
structure PipeState where
  /-- The buffer with the bytes that have not been read. -/
  buf : ℕ → UInt8
  /-- Buffered bytes, a C int. -/
  len : ℤ
  /-- Allocated bytes, a C int. -/
  cap : ℤ
  /-- Stamp of the PipeInit call. -/
  opened : ℕ

/-- The state of a lock, with the stamp of its creation. -/
structure LockState where
  /-- Owning process or null. -/
  owner : PcbPtr
  /-- Stamp of the LockInit call. -/
  opened : ℕ

/-- The state of a condition variable, with the stamp of its creation. -/
structure CvarState where
  /-- Stamp of the CvarInit call. -/
  opened : ℕ

/-- An entry of the object table. -/
inductive IpcObject
  | free
  | pipe (pipe : PipeState)
  | lock (lock : LockState)
  | cvar (cvar : CvarState)

/-- A terminal; its process queues are kept with the other queues. -/
structure TtyState where
  /-- Lines nobody has been given. -/
  inputQueue : List TtyLine
  /-- The partly read line. -/
  line : Option TtyLine
  /-- Process whose write is in progress, or null. -/
  writer : PcbPtr
  /-- A transmission is outstanding. -/
  busy : Bool

/-- The event that makes a blocked process ready. -/
inductive Waker
  /-- ProcessWakeDelayed at a tick not before the deadline. -/
  | delay (deadline now : ℕ)
  /-- The exit of a child. -/
  | child (child : PcbPtr)
  /-- Removal from the front of a queue. -/
  | pop (queue : QueueAddr)
  /-- Completion of a terminal write. -/
  | written (tty : ℕ)
  deriving DecidableEq

/-- What the log records, for the histories of the proofs. -/
inductive Event
  /-- The clock has counted a tick. -/
  | tick
  /-- ProcessMakeReady linked a process on the ready queue. -/
  | linked (p : PcbPtr)
  /-- ProcessSchedule, called by old, picked next in the given state from the given queue. -/
  | dispatched (old next : PcbPtr) (st : ProcState) (queue : List PcbPtr)
  /-- A blocked process lost its reason to be blocked. -/
  | woken (p : PcbPtr) (waker : Waker)
  /-- A child was created; processes are named by their creation stamps. -/
  | forked (parent child : ℕ) (pid : ℤ)
  /-- A process with the given parent link exited. -/
  | exited (p : PcbPtr) (birth : ℕ) (parent : PcbPtr) (status : ℤ)
  /-- Wait returned the pid of a child with its status. -/
  | waited (parent child : ℕ) (pid status : ℤ)
  /-- A PipeWrite has put its bytes into a pipe. -/
  | pipeWrote (opened : ℕ) (bytes : List UInt8)
  /-- A PipeRead that returned bytes. -/
  | pipeReturned (opened : ℕ) (bytes : List UInt8)
  /-- An acquirer blocked on a lock. -/
  | lockBlocked (opened : ℕ) (p : PcbPtr)
  /-- LockRelease handed the lock to its first waiter. -/
  | lockGranted (opened : ℕ) (p : PcbPtr)
  /-- LockAcquire returned SUCCESS without having waited. -/
  | lockTaken (opened : ℕ) (p : PcbPtr)
  /-- LockAcquire returned SUCCESS after having waited. -/
  | lockResumed (opened : ℕ) (p : PcbPtr)
  /-- The owner gave up a lock. -/
  | lockReleased (opened : ℕ) (p : PcbPtr)
  /-- A process joined the waiters of the condition variable with this number. -/
  | cvarBlocked (i : ℕ) (p : PcbPtr)
  /-- A line was accepted from a terminal. -/
  | ttyReceived (tty stamp len : ℕ) (data : ℕ → UInt8)
  /-- A read returned count bytes of a line from pos on. -/
  | ttyReturned (p : PcbPtr) (tty stamp pos count : ℕ)
  /-- TtyWrite accepted bytes for a terminal. -/
  | ttyWrote (tty : ℕ) (p : PcbPtr) (bytes : List UInt8)
  /-- A chunk was passed to TtyTransmit. -/
  | ttyTransmitted (tty : ℕ) (p : PcbPtr) (bytes : List UInt8)
  /-- The completion trap of a chunk was taken. -/
  | ttyCompleted (tty : ℕ)
  /-- TtyWrite returned its length. -/
  | ttyWriteReturned (tty : ℕ) (p : PcbPtr) (len : ℤ)
  /-- The kernel stored bytes through a user address. -/
  | stored (p : PcbPtr) (addr count : ℕ)
  /-- The kernel loaded bytes through a user address. -/
  | loaded (p : PcbPtr) (addr count : ℕ)
  /-- Files and kernel blocks opened, closed, allocated and freed by Exec. -/
  | execLedger (opened closed : ℕ) (allocated freed : List ℕ)

/-- What the processor does next. -/
inductive Cpu
  /-- The current process runs in user mode. -/
  | user
  /-- The saved kernel context of the current process is resumed. -/
  | kernel
  /-- The machine was halted. -/
  | halted
  /-- The kernel aborted with a message. -/
  | aborted (msg : String)
  /-- A kernel loop does not end. -/
  | diverged
  /-- The kernel stored through a page that is not mapped for stores. -/
  | faulted
  deriving DecidableEq

/-- All kernel variables, the processor mode and the history. -/
structure Kernel where
  /-- Blocks that are allocated and not freed. -/
  live : PcbPtr → Bool
  /-- The identifier of each process. -/
  pid : PcbPtr → ℤ
  /-- The state of each process. -/
  state : PcbPtr → ProcState
  /-- The saved registers of each process. -/
  userContext : PcbPtr → UserContext
  /-- The saved kernel stack of each process. -/
  kernelContext : PcbPtr → KernelContext
  /-- Address space of the process. -/
  space : PcbPtr → UserSpace
  /-- Deadline of a delay, zero without one. -/
  delayUntil : PcbPtr → ℕ
  /-- Status passed to Exit. -/
  exitStatus : PcbPtr → ℤ
  /-- The process is blocked in Wait. -/
  waitingForChild : PcbPtr → Bool
  /-- Terminal request of the process. -/
  tty : PcbPtr → TtyRequest
  /-- The parent of each process, or null. -/
  parent : PcbPtr → PcbPtr
  /-- Children in order of creation. -/
  children : PcbPtr → List PcbPtr
  /-- Queue the process says it is linked on. -/
  blockQueue : PcbPtr → Option QueueAddr
  /-- The stamp of the creation of each process. -/
  birth : PcbPtr → ℕ
  /-- current_process, the process that runs. -/
  currentProcess : PcbPtr
  /-- idle_process, which runs when nobody else is ready. -/
  idleProcess : PcbPtr
  /-- init_process, whose end halts the machine. -/
  initProcess : PcbPtr
  /-- Processes waiting for the processor. -/
  readyQueue : List PcbPtr
  /-- Ticks since boot, modulo 2^32. -/
  clockTicks : ℕ
  /-- The processes by their identifiers. -/
  processTable : ℕ → PcbPtr
  /-- Processes blocked on each queue. -/
  queue : QueueAddr → List PcbPtr
  /-- The table of pipes, locks and condition variables. -/
  objects : ℕ → IpcObject
  /-- The terminals by their numbers. -/
  terminals : ℕ → TtyState
  /-- Frames and the kernel page table. -/
  memory : Memory
  /-- Who has the processor, or how the machine has stopped. -/
  cpu : Cpu
  /-- Registers the hardware resumes user mode with. -/
  uctxt : UserContext
  /-- The stamp of the next process, object or line. -/
  stamp : ℕ
  /-- History of the run. -/
  log : List Event

namespace Kernel

/-- Append an event to the history. -/
def emit (s : Kernel) (e : Event) : Kernel := {s with log := s.log++[e]}

/-- Set the saved user registers of a process. -/
def setUserContext (s : Kernel) (p : PcbPtr) (u : UserContext) : Kernel :=
  {s with userContext := Function.update s.userContext p u}

/-- Save the kernel stack of a process. -/
def setKernelContext (s : Kernel) (p : PcbPtr) (k : KernelContext) : Kernel :=
  {s with kernelContext := Function.update s.kernelContext p k}

/-- Replace the list of a queue. -/
def setQueue (s : Kernel) (q : QueueAddr) (l : List PcbPtr) : Kernel :=
  {s with queue := Function.update s.queue q l}

/-- Replace an entry of the object table. -/
def setObject (s : Kernel) (i : ℕ) (o : IpcObject) : Kernel :=
  {s with objects := Function.update s.objects i o}

/-- The kernel with another state of one terminal. -/
def setTerminal (s : Kernel) (t : ℕ) (tty : TtyState) : Kernel :=
  {s with terminals := Function.update s.terminals t tty}

/-- Replace the terminal request of a process. -/
def setTty (s : Kernel) (p : PcbPtr) (r : TtyRequest) : Kernel :=
  {s with tty := Function.update s.tty p r}

/-- Replace the address space of a process. -/
def setSpace (s : Kernel) (p : PcbPtr) (v : UserSpace) : Kernel :=
  {s with space := Function.update s.space p v}

/-- Stop the machine with a message. -/
def kernelPanic (s : Kernel) (msg : String) : Kernel := {s with cpu := .aborted msg}

end Kernel

/-- Outcome of a kernel function that may give up the processor. -/
inductive Flow
  /-- The function returns a result to its caller in this kernel entry. -/
  | returns (s : Kernel) (uctxt : UserContext) (rc : ℤ)
  /-- The function switched away or stopped the machine. -/
  | leaves (s : Kernel)

end Yalnix.KernelState

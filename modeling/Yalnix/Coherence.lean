import Yalnix.KernelStart
import Yalnix.BlockingDiscipline

/-!
# Coherent kernel states

The invariant that every operation of the kernel keeps, in groups. Each
group names the fields it speaks about, so that an operation on other fields
keeps it by definition. The groups cover the ready queue, the reasons for
being blocked, the homes of the wait queues, lock owners, families, the
process table, lock hand-over, the saved kernel stacks,
terminal readers and terminal writers.
-/

namespace Yalnix.Coherence

open Framework FrameTable KernelState Scheduling Ipc Terminals ProcessLifetime ProgramLoading
open Syscalls Traps KernelStart BlockingDiscipline

/-- Why a process is blocked. -/
inductive Reason
  /-- A deadline is set. -/
  | delay
  /-- The process waits for a child. -/
  | child
  /-- The process is linked on a queue. -/
  | queue (q : QueueAddr)
  /-- The process is the writer of a terminal. -/
  | writer (t : ℕ)
  deriving DecidableEq

/-- The reasons a process has, field by field. -/
def Waits (delayUntil : PcbPtr → ℕ) (waiting : PcbPtr → Bool) (queue : QueueAddr → List PcbPtr)
    (terminals : ℕ → TtyState) (p : PcbPtr) : Reason → Prop
  | .delay => delayUntil p≠0
  | .child => waiting p=true
  | .queue q => p∈queue q
  | .writer t => (terminals t).writer=p

/-- The reasons a process has. -/
abbrev BlockedBy (s : Kernel) : PcbPtr → Reason → Prop :=
  Waits s.delayUntil s.waitingForChild s.queue s.terminals

/-- The object or terminal a queue belongs to. -/
def QueueHome (M : Machine) (objects : ℕ → IpcObject) : QueueAddr → Prop
  | .readers i => ∃ pipe,objects i=.pipe pipe
  | .lockWaiters i => ∃ lock,objects i=.lock lock
  | .cvarWaiters i => ∃ cvar,objects i=.cvar cvar
  | .readQueue t => t<M.numTerminals
  | .writeQueue t => t<M.numTerminals

/-- The ready queue holds living, ready processes other than idle, once each. -/
structure ReadyOk (live : PcbPtr → Bool) (state : PcbPtr → ProcState) (idle current : PcbPtr)
    (ready : List PcbPtr) : Prop where
  /-- The null pointer is no process. -/
  null : live 0=false
  /-- The idle process exists. -/
  idle_live : live idle=true
  /-- Idle is always running. -/
  idle_running : state idle=.running
  /-- The current process exists. -/
  current_live : live current=true
  /-- No process is linked twice. -/
  nodup : ready.Nodup
  /-- Linked processes are ready. -/
  mem : ∀ p∈ready,live p=true ∧ p≠idle ∧ state p=.ready

/-- Queues and writers hold living processes that are blocked for one reason. -/
structure BlockOk (live : PcbPtr → Bool) (state : PcbPtr → ProcState) (delayUntil : PcbPtr → ℕ)
    (waiting : PcbPtr → Bool) (queue : QueueAddr → List PcbPtr)
    (link : PcbPtr → Option QueueAddr) (terminals : ℕ → TtyState) : Prop where
  /-- One reason per blocked process. -/
  reasons : Disciplined (fun p => live p=true) (fun p => state p=.blocked)
    (Waits delayUntil waiting queue terminals)
  /-- Every queued process exists. -/
  queue_live : ∀ q,∀ p∈queue q,live p=true
  /-- No process is linked twice on a queue. -/
  queue_nodup : ∀ q,(queue q).Nodup
  /-- A queued process points to its queue. -/
  queue_link : ∀ q,∀ p∈queue q,link p=some q
  /-- The writer of a terminal exists. -/
  writer_live : ∀ t,(terminals t).writer≠0 → live (terminals t).writer=true

/-- Processes wait only on queues of existing objects and terminals. -/
def HomeOk (M : Machine) (queue : QueueAddr → List PcbPtr) (objects : ℕ → IpcObject) : Prop :=
  ∀ q,queue q≠[] → QueueHome M objects q

/-- Lock owners are living processes other than idle and no zombies. -/
structure OwnerOk (live : PcbPtr → Bool) (state : PcbPtr → ProcState) (idle : PcbPtr)
    (objects : ℕ → IpcObject) : Prop where
  /-- Owners can give their lock back. -/
  owner : ∀ i lock,objects i=.lock lock → lock.owner≠0 →
    live lock.owner=true ∧ lock.owner≠idle ∧ state lock.owner≠.zombie
  /-- Entries outside the table stay unused. -/
  bound : ∀ i,IPC_MAX_OBJECTS≤ i → objects i=.free

/-- Parent pointers and lists of children agree. -/
structure FamilyOk (live : PcbPtr → Bool) (state : PcbPtr → ProcState) (parent : PcbPtr → PcbPtr)
    (children : PcbPtr → List PcbPtr) : Prop where
  /-- A process with a parent is on the list of that parent. -/
  parent_child : ∀ c,live c=true → parent c≠0 →
    live (parent c)=true ∧ c∈children (parent c)
  /-- A listed child exists and points to its parent. -/
  child_parent : ∀ p c,live p=true → c∈children p → live c=true ∧ parent c=p
  /-- No child is listed twice. -/
  nodup : ∀ p,live p=true → (children p).Nodup
  /-- Zombies have no children. -/
  zombie : ∀ p,live p=true → state p=.zombie → children p=[]
  /-- Nobody is a child of itself. -/
  irrefl : ∀ p,live p=true → p∉children p

/-- Table entries are living processes with that identifier. -/
def TableOk (M : Machine) (live : PcbPtr → Bool) (pid : PcbPtr → ℤ) (table : ℕ → PcbPtr) : Prop :=
  ∀ i,table i≠0 → live (table i)=true ∧ pid (table i)=i ∧ i<M.maxProcs

/-- A process stopped in LockAcquire is a waiter or the owner of its lock. -/
structure LockOk (live : PcbPtr → Bool) (state : PcbPtr → ProcState)
    (saved : PcbPtr → KernelContext) (queue : QueueAddr → List PcbPtr)
    (objects : ℕ → IpcObject) : Prop where
  /-- The lock still exists; a blocked acquirer is queued, a woken one owns it. -/
  acquirer : ∀ p id g,live p=true → (saved p).point=.acquire id g →
    0≤ id ∧ id<IPC_MAX_OBJECTS ∧ ∃ lock,objects id.toNat=.lock lock ∧ lock.opened=g ∧
      (state p=.blocked → p∈queue (.lockWaiters id.toNat)) ∧
      (state p≠.blocked → lock.owner=p)
  /-- Queued processes are acquirers. -/
  queued : ∀ i,∀ p∈queue (.lockWaiters i),∃ id g,(saved p).point=.acquire id g ∧ id.toNat=i
  /-- A lock with waiters is owned. -/
  owned : ∀ i lock,objects i=.lock lock → queue (.lockWaiters i)≠[] → lock.owner≠0

/-- The arguments a call had when it was stopped, for the process it belongs to. -/
def PointOk (M : Machine) (p : PcbPtr) : KernelPoint → Prop
  | .fork child => child=p
  | .pipeRead _ _ len _ => 0<len
  | .ttyRead t => t<M.numTerminals
  | _ => True

/-- Every other process has a saved kernel stack, and only zombies end. -/
structure SavedOk (M : Machine) (live : PcbPtr → Bool) (state : PcbPtr → ProcState)
    (saved : PcbPtr → KernelContext) (idle current : PcbPtr) : Prop where
  /-- A process that does not run can be resumed. -/
  other : ∀ p,live p=true → p≠current → (saved p).point≠.executing
  /-- A process stopped in ProcessExitCurrent is a zombie. -/
  exited : ∀ p,live p=true → (saved p).point=.exited → state p=.zombie
  /-- Stopped calls had passed their checks. -/
  point : ∀ p,live p=true → PointOk M p (saved p).point
  /-- Idle makes no calls. -/
  idle : (saved idle).point=.executing ∨ (saved idle).point=.boot ∨ (saved idle).point=.clock

/-- Blocked readers are stopped in SysTtyRead, and a line is handed only to a
reader that has been woken and not yet resumed. -/
structure ReaderOk (live : PcbPtr → Bool) (state : PcbPtr → ProcState)
    (saved : PcbPtr → KernelContext) (queue : QueueAddr → List PcbPtr)
    (tty : PcbPtr → TtyRequest) : Prop where
  /-- Queued readers of a terminal wait for that terminal. -/
  reading : ∀ t,∀ p∈queue (.readQueue t),(saved p).point=.ttyRead t
  /-- A handed line belongs to a woken reader. -/
  handed : ∀ p line,live p=true → (tty p).readLine=some line →
    (∃ t,(saved p).point=.ttyRead t) ∧ state p≠.blocked ∧ state p≠.zombie

/-- A terminal transmits exactly for its writer, and queued writers have bytes left. -/
structure WriterOk (queue : QueueAddr → List PcbPtr) (terminals : ℕ → TtyState)
    (tty : PcbPtr → TtyRequest) : Prop where
  /-- A transmission is outstanding exactly for a writer. -/
  busy : ∀ t,(terminals t).busy=true ↔ (terminals t).writer≠0
  /-- Nobody queues behind nobody. -/
  queued : ∀ t,queue (.writeQueue t)≠[] → (terminals t).writer≠0
  /-- A queued write has bytes left. -/
  pending : ∀ t,∀ p∈queue (.writeQueue t),(tty p).writeOffset<(tty p).writeLen

/-- The invariant of the kernel. -/
structure Coherent (M : Machine) (s : Kernel) : Prop where
  /-- The ready queue holds the ready processes. -/
  ready : ReadyOk s.live s.state s.idleProcess s.currentProcess s.readyQueue
  /-- Reasons for being blocked. -/
  block : BlockOk s.live s.state s.delayUntil s.waitingForChild s.queue s.blockQueue s.terminals
  /-- Homes of the wait queues. -/
  home : HomeOk M s.queue s.objects
  /-- Locks are owned by processes that exist and have not ended. -/
  owner : OwnerOk s.live s.state s.idleProcess s.objects
  /-- The links between parents and children agree. -/
  family : FamilyOk s.live s.state s.parent s.children
  /-- The process table holds each process under its identifier. -/
  table : TableOk M s.live s.pid s.processTable
  /-- Locks with waiters are owned, and acquirers wait in the queue of their lock. -/
  lock : LockOk s.live s.state s.kernelContext s.queue s.objects
  /-- The saved kernel stacks fit the states of their processes. -/
  saved : SavedOk M s.live s.state s.kernelContext s.idleProcess s.currentProcess
  /-- Handed lines and waiting readers fit the saved stacks. -/
  reader : ReaderOk s.live s.state s.kernelContext s.queue s.tty
  /-- The terminals, their writers and the requests of these agree. -/
  writer : WriterOk s.queue s.terminals s.tty

/-- The current process can go on: it is neither blocked, ended nor queued. -/
structure Runnable (s : Kernel) : Prop where
  /-- It is marked running, or ready when the scheduler picked it again. -/
  state : s.state s.currentProcess=.running ∨ s.state s.currentProcess=.ready
  /-- It is not on the ready queue. -/
  unlinked : s.currentProcess∉s.readyQueue
  /-- The machine has not stopped. -/
  running : s.cpu=.user ∨ s.cpu=.kernel

/-- The current process executes in the kernel or in user mode. -/
structure Active (s : Kernel) : Prop extends Runnable s where
  /-- Nothing is saved for it. -/
  executing : (s.kernelContext s.currentProcess).point=.executing

/-- What holds whenever the kernel is left or has switched. -/
structure Settled (M : Machine) (s : Kernel) : Prop extends Coherent M s where
  /-- The current process is not on the ready queue. -/
  unlinked : s.currentProcess∉s.readyQueue
  /-- User mode belongs to a process that executes. -/
  user : s.cpu=.user → Active s
  /-- A picked process can be resumed. -/
  kernel : s.cpu=.kernel → Runnable s ∧ (s.kernelContext s.currentProcess).point≠.executing

end Yalnix.Coherence

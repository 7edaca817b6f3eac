import Yalnix.Coherence

/-!
# The operations a kernel step is made of

Every kernel step is a sequence of operations, each an assignment to a few
fields under the conditions the sources have checked at that place. Calm
operations leave the current process executing. Properties of runs are proved
once for each operation. Labels let a property restrict the operations that
depend on answers from outside, on the size of a write, on a line handed to a
reader, on the scheduler picking its own caller, on the family of an ending
process, on the queue a call wakes, on the number given to or taken from an
object, or on the trap that ends a transmission.
-/

namespace Yalnix.Operations

open Framework FrameTable KernelState Scheduling Ipc Terminals ProcessLifetime ProgramLoading
open Syscalls Traps KernelStart Coherence

/-- Link a process on the ready queue. -/
def markReady (s : Kernel) (p : PcbPtr) : Kernel :=
  {s with
    state := Function.update s.state p .ready
    readyQueue := s.readyQueue++[p]
    log := s.log++[.linked p]}

/-- Making an unlinked process ready that is neither idle nor a zombie. -/
theorem processMakeReady_eq {s : Kernel} {p : PcbPtr} (h0 : p≠0) (hi : p≠s.idleProcess)
    (hz : s.state p≠.zombie) (hr : p∉s.readyQueue) : processMakeReady s p=markReady s p := by
  unfold processMakeReady markReady
  rw [if_neg (by simp only [h0,hi,hz,or_self,not_false_eq_true]),if_neg hr]

/-- Clear the busy flag and the writer of a terminal and wake the writer. -/
def releaseWriter (t : ℕ) (u : UserContext) (s : Kernel) : Kernel :=
  markReady {s with
    userContext := Function.update s.userContext (s.terminals t).writer u
    terminals := Function.update s.terminals t {s.terminals t with busy := false, writer := 0}
    log := s.log++[.ttyCompleted t,.woken (s.terminals t).writer (.written t)]}
    (s.terminals t).writer

/-- Events that record memory accesses and resources only. -/
def Neutral : Event → Prop
  | .stored _ _ _ => True
  | .loaded _ _ _ => True
  | .execLedger _ _ _ _ => True
  | _ => False

/-- Changes of a live address space by Brk, stack growth and Exec, which is
refused for the idle process. -/
inductive SpaceStep (M : Machine) (env : Env) (idle : Prop) (m : Memory) (v : UserSpace) :
    Memory → UserSpace → Prop
  /-- A moved or refused break. -/
  | brk (addr : ℕ) : SpaceStep M env idle m v (moveBrk M m v addr).1 (moveBrk M m v addr).2.1
  /-- A stack that grew. -/
  | grow (addr : ℕ) (h : (growStack M m v addr).2.2=true) :
      SpaceStep M env idle m v (growStack M m v addr).1 (growStack M m v addr).2.1
  /-- Exec has replaced the image by another one. -/
  | exec {args : List (List UInt8)} {n : ℕ} {m' : Memory} {v' : UserSpace} {pc : ℕ} {sp : ℤ}
      (hi : ¬idle) (h : loadProgram M env args n m v=.success m' v' pc sp) :
      SpaceStep M env idle m v m' v'

/-- What is left of an address space when its process must end. -/
inductive SpaceEnd (M : Machine) (env : Env) (idle : Prop) (m : Memory) (v : UserSpace) :
    Memory → UserSpace → Prop
  /-- The memory and the address space are kept whole. -/
  | kept : SpaceEnd M env idle m v m v
  /-- A stack that could not grow. -/
  | grow (addr : ℕ) (h : (growStack M m v addr).2.2=false) :
      SpaceEnd M env idle m v (growStack M m v addr).1 (growStack M m v addr).2.1
  /-- An image that could not be completed. -/
  | exec {args : List (List UInt8)} {n : ℕ} {m' : Memory} {v' : UserSpace}
      (hi : ¬idle) (h : loadProgram M env args n m v=.kill m' v') :
      SpaceEnd M env idle m v m' v'
  /-- An image whose filling stopped the kernel. -/
  | fault {args : List (List UInt8)} {n : ℕ} {m' : Memory} {v' : UserSpace}
      (hi : ¬idle) (h : loadProgram M env args n m v=.fault m' v') :
      SpaceEnd M env idle m v m' v'

/-- Data on which a run may put conditions. -/
inductive Label
  /-- Answers during a change of an address space. -/
  | space (env : Env)
  /-- A write of len bytes to the pipe with this stamp and the given bytes buffered. -/
  | put (opened : ℕ) (buffered len : ℤ)
  /-- A reader of len bytes with a handed line finds this slot and these readers. -/
  | handed (line : TtyLine) (len : ℕ) (slot : Option TtyLine) (readers : List PcbPtr)
  /-- The scheduler picks the process that called it. -/
  | repick
  /-- A child in this state loses its parent. -/
  | orphan (state : ProcState)
  /-- A process with this parent ends. -/
  | ends (parent : PcbPtr)
  /-- A call wakes processes of a queue. -/
  | wakes (q : QueueAddr)
  /-- An initialising call gets this number while these kernel stacks are saved. -/
  | opens (i : ℕ) (call : Syscall) (live : PcbPtr → Bool) (saved : PcbPtr → KernelContext)
  /-- Reclaim frees this number while these kernel stacks are saved. -/
  | reclaims (i : ℕ) (live : PcbPtr → Bool) (saved : PcbPtr → KernelContext)
  /-- A completion trap of a terminal follows this history. -/
  | completes (t : ℕ) (log : List Event)
  /-- A fork that fails began with this memory, to copy this table. -/
  | copies (m : Memory) (src : PageTable)

/-- The current process may block. -/
structure MayBlock (s : Kernel) : Prop extends Active s where
  /-- The idle process never blocks. -/
  notIdle : s.currentProcess≠s.idleProcess

/-- The operations; the flag tells whether the current process goes on executing. -/
inductive Op (M : Machine) (allow : Label → Prop) : Bool → Kernel → Kernel → Prop
  /-- The kernel is left and user mode resumes. -/
  | toUser {s : Kernel} (u : UserContext) (h : Active s) : Op M allow true s (returnToUser u s)
  /-- Stop the machine, with what is left of the current address space. -/
  | stop {s : Kernel} (c : Cpu) (env : Env) (m : Memory) (v : UserSpace) (h : Active s)
      (hu : c≠.user) (hk : c≠.kernel) (hz : c≠.aborted "zombie process resumed")
      (hv : SpaceEnd M env (s.currentProcess=s.idleProcess) s.memory (s.space s.currentProcess) m v)
      (ho : allow (.space env)) :
      Op M allow false s {s with
        memory := m
        space := Function.update s.space s.currentProcess v
        cpu := c}
  /-- Set saved user registers. -/
  | context {s : Kernel} (p : PcbPtr) (u : UserContext) : Op M allow true s (s.setUserContext p u)
  /-- An access through a user pointer is recorded. -/
  | note {s : Kernel} (e : Event) (h : Neutral e) : Op M allow true s (s.emit e)
  /-- The clock counts a tick. -/
  | tick {s : Kernel} : Op M allow true s (tickClock s)
  /-- Take up the saved kernel stack. -/
  | begin {s : Kernel} (h : Runnable s)
      (hl : ∀ id g,(s.kernelContext s.currentProcess).point≠.acquire id g)
      (hr : (s.tty s.currentProcess).readLine=none) :
      Op M allow true s (s.setKernelContext s.currentProcess ⟨s.currentProcess,.executing⟩)
  /-- Save the kernel stack of a preempted process. -/
  | preempt {s : Kernel} (h : Active s) :
      Op M allow false s (s.setKernelContext s.currentProcess ⟨s.currentProcess,.clock⟩)
  /-- Note the arguments of a terminal read. -/
  | readRequest {s : Kernel} (t buf len : ℕ) :
      Op M allow true s (s.setTty s.currentProcess {s.tty s.currentProcess with
        ttyId := t, readBuf := buf, readLen := len})
  /-- Resume and forget a finished terminal write. -/
  | writeDone {s : Kernel} (t : ℕ) (len : ℤ) (h : Runnable s)
      (hk : (s.kernelContext s.currentProcess).point=.ttyWrite t len) :
      Op M allow true s (((s.setKernelContext s.currentProcess
        ⟨s.currentProcess,.executing⟩).setTty s.currentProcess {s.tty s.currentProcess with
          writeBuf := fun _ => 0, writeLen := 0, writeOffset := 0}).emit
            (.ttyWriteReturned t s.currentProcess len))
  /-- Clear the flag of a finished wait. -/
  | clearWaiting {s : Kernel} (h : Active s) :
      Op M allow true s {s with
        waitingForChild := Function.update s.waitingForChild s.currentProcess false}
  /-- Wake a process whose delay is over. -/
  | sleepOver {s : Kernel} (p : PcbPtr) (hl : s.live p=true) (h : DelayOver s p) :
      Op M allow false s (markReady {s with
        delayUntil := Function.update s.delayUntil p 0
        log := s.log++[.woken p (.delay (s.delayUntil p) s.clockTicks)]} p)
  /-- Requeue the running process. -/
  | requeue {s : Kernel} (hi : s.currentProcess≠s.idleProcess)
      (hs : s.state s.currentProcess=.running) :
      Op M allow false s (markReady s s.currentProcess)
  /-- The next process is picked and switched to. -/
  | dispatch {s : Kernel} (env : Env) (hs : env.switchOk=true) (hc : s.cpu=.user ∨ s.cpu=.kernel)
      (hk : (s.kernelContext s.currentProcess).point≠.executing)
      (hr : s.currentProcess=s.idleProcess ∨ s.state s.currentProcess≠.running)
      (ho : nextProcess s=s.currentProcess → s.currentProcess≠s.idleProcess → allow .repick) :
      Op M allow false s (dispatchNext M env s)
  /-- A fork that failed before the child was entered. -/
  | forkFails {s : Kernel} (env : Env) (m : Memory) (ha : Active s)
      (h : processCreateChild M env s.currentProcess s=({s with memory := m},none))
      (ho : allow (.copies s.memory (s.space s.currentProcess).region1Pt)) :
      Op M allow true s {s with memory := m}
  /-- A fork whose child was entered and destroyed again. -/
  | forkUndone {s : Kernel} (env : Env) (child : PcbPtr) (pfns : ℕ → ℕ) (pt : PageTable)
      (m₁ m : Memory) (u : UserContext) (ha : Active s) (hc : callocPcb env s=some child)
      (hk : processAllocKernelStack M s.memory=(m₁,some pfns))
      (hp : processCopyRegion1 M m₁ (s.space s.currentProcess).region1Pt=(m,some pt)) :
      Op M allow true s (processDestroy M child
        ((enterChild M s.currentProcess child env.newPid pfns pt m s).setUserContext child u))
  /-- A fork has succeeded and its child is ready. -/
  | spawn {s : Kernel} (env : Env) (caller child : PcbPtr) (pfns : ℕ → ℕ) (pt : PageTable)
      (m₁ m : Memory) (u : UserContext) (h : MayBlock s) (hc : callocPcb env s=some child)
      (hk : processAllocKernelStack M s.memory=(m₁,some pfns)) (hn : env.newPid≠ERROR)
      (hp : processCopyRegion1 M m₁ (s.space s.currentProcess).region1Pt=(m,some pt)) :
      Op M allow true s (markReady ((kcCopy M child ⟨caller,.fork child⟩
        ((enterChild M s.currentProcess child env.newPid pfns pt m s).setUserContext child u)).emit
          (.forked (s.birth s.currentProcess) s.stamp env.newPid)) child)
  /-- Change the address space of the current process. -/
  | respace {s : Kernel} (env : Env) (m : Memory) (v : UserSpace)
      (h : SpaceStep M env (s.currentProcess=s.idleProcess) s.memory (s.space s.currentProcess) m v)
      (ha : Active s) (ho : allow (.space env)) :
      Op M allow true s {s with memory := m, space := Function.update s.space s.currentProcess v}
  /-- Orphan the first child. -/
  | orphan {s : Kernel} (c : PcbPtr) (rest : List PcbPtr) (ha : Active s)
      (h : s.children s.currentProcess=c::rest) (ho : allow (.orphan (s.state c))) :
      Op M allow true s {s with
        children := Function.update s.children s.currentProcess rest
        parent := Function.update s.parent c 0}
  /-- Give up a lock nobody waits for. -/
  | unlock {s : Kernel} (i : ℕ) (l : LockState) (ha : Active s) (h : s.objects i=.lock l)
      (ho : l.owner=s.currentProcess) (hq : s.queue (.lockWaiters i)=[]) :
      Op M allow true s (clearOwner i l s)
  /-- Hand a lock to its first waiter. -/
  | handOff {s : Kernel} (i : ℕ) (l : LockState) (w : PcbPtr) (rest : List PcbPtr)
      (u : UserContext) (ha : Active s) (h : s.objects i=.lock l) (ho : l.owner=s.currentProcess)
      (hq : s.queue (.lockWaiters i)=w::rest) :
      Op M allow true s (grantLock i l w (markReady {clearOwner i l s with
        queue := Function.update s.queue (.lockWaiters i) rest
        blockQueue := Function.update s.blockQueue w none
        userContext := Function.update s.userContext w u
        log := s.log++[.lockReleased l.opened l.owner,.woken w (.pop (.lockWaiters i))]} w))
  /-- End without a waiting parent. -/
  | zombie {s : Kernel} (status : ℤ) (k : KernelContext) (env : Env) (m : Memory) (v : UserSpace)
      (hk : k.point=.exited) (h : MayBlock s) (hc : s.children s.currentProcess=[])
      (hl : ∀ i l,s.objects i=.lock l → l.owner≠s.currentProcess)
      (hp : s.parent s.currentProcess=0 ∨ s.waitingForChild (s.parent s.currentProcess)=false)
      (hv : SpaceEnd M env (s.currentProcess=s.idleProcess) s.memory (s.space s.currentProcess) m v)
      (ho : allow (.space env)) (hn : allow (.ends (s.parent s.currentProcess))) :
      Op M allow false s {s with
        exitStatus := Function.update s.exitStatus s.currentProcess status
        state := Function.update s.state s.currentProcess .zombie
        kernelContext := Function.update s.kernelContext s.currentProcess k
        memory := m
        space := Function.update s.space s.currentProcess v
        log := s.log++[.exited s.currentProcess (s.birth s.currentProcess)
          (s.parent s.currentProcess) status]}
  /-- End and wake the waiting parent. -/
  | zombieWake {s : Kernel} (status : ℤ) (k : KernelContext) (env : Env) (m : Memory)
      (v : UserSpace) (hk : k.point=.exited) (h : MayBlock s)
      (hc : s.children s.currentProcess=[])
      (hl : ∀ i l,s.objects i=.lock l → l.owner≠s.currentProcess)
      (hp : s.parent s.currentProcess≠0)
      (hw : s.waitingForChild (s.parent s.currentProcess)=true)
      (hv : SpaceEnd M env (s.currentProcess=s.idleProcess) s.memory (s.space s.currentProcess) m v)
      (ho : allow (.space env)) (hn : allow (.ends (s.parent s.currentProcess))) :
      Op M allow false s (markReady {s with
        exitStatus := Function.update s.exitStatus s.currentProcess status
        state := Function.update s.state s.currentProcess .zombie
        kernelContext := Function.update s.kernelContext s.currentProcess k
        waitingForChild := Function.update s.waitingForChild (s.parent s.currentProcess) false
        memory := m
        space := Function.update s.space s.currentProcess v
        log := s.log++[.exited s.currentProcess (s.birth s.currentProcess)
            (s.parent s.currentProcess) status,
          .woken (s.parent s.currentProcess) (.child s.currentProcess)]}
        (s.parent s.currentProcess))
  /-- Report and destroy a zombie child. -/
  | collect {s : Kernel} (statusPtr : ℕ) (c : PcbPtr) (ha : Active s)
      (hc : c∈s.children s.currentProcess) (hz : s.state c=.zombie) :
      Op M allow true s (collectChild M statusPtr c s)
  /-- Sleep until a deadline. -/
  | blockDelay {s : Kernel} (ticks : ℤ) (k : KernelContext) (u : UserContext)
      (hk : k.point=.delay) (h : MayBlock s) (ht : 0<ticks) (ht' : ticks<2^31) :
      Op M allow false s (blockForDelay (delayDeadline s ticks) k u s)
  /-- Wait for a child. -/
  | blockChild {s : Kernel} (statusPtr : ℕ) (k : KernelContext) (u : UserContext)
      (hk : k.point=.wait statusPtr) (h : MayBlock s) (hc : s.children s.currentProcess≠[])
      (hz : ∀ c∈s.children s.currentProcess,s.state c≠.zombie) :
      Op M allow false s (blockForChild k u s)
  /-- Wait for bytes of an empty pipe. -/
  | blockPipe {s : Kernel} (id : ℤ) (buf : ℕ) (len : ℤ) (pipe : PipeState) (k : KernelContext)
      (u : UserContext) (hk : k.point=.pipeRead id buf len pipe.opened) (h : MayBlock s)
      (hl : 0<len)
      (ho : getObject s id=.pipe pipe) (he : pipe.len=0) :
      Op M allow false s (blockCurrent (.readers id.toNat) k u s)
  /-- Wait for an owned lock. -/
  | blockLock {s : Kernel} (id : ℤ) (l : LockState) (k : KernelContext) (u : UserContext)
      (hk : k.point=.acquire id l.opened) (h : MayBlock s) (ho : getObject s id=.lock l)
      (hl : l.owner≠0) (hn : l.owner≠s.currentProcess) :
      Op M allow false s (blockOnLock id.toNat l k u s)
  /-- Wait on a condition variable. -/
  | blockCvar {s : Kernel} (id lockId : ℤ) (cvar : CvarState) (lockOpened : ℕ)
      (k : KernelContext) (u : UserContext)
      (hk : k.point=.cvarWait id lockId cvar.opened lockOpened)
      (h : MayBlock s) (ho : getObject s id=.cvar cvar)
      (hl : ∃ l,getObject s lockId=.lock l ∧ l.opened=lockOpened ∧ l.owner≠s.currentProcess) :
      Op M allow false s (blockOnCvar id.toNat k u s)
  /-- Wait for a line of a terminal without input. -/
  | blockRead {s : Kernel} (t : ℕ) (k : KernelContext) (u : UserContext)
      (hk : k.point=.ttyRead t) (h : MayBlock s) (ht : t<M.numTerminals)
      (hr : (s.tty s.currentProcess).readLine=none)
      (hl : (s.terminals t).line=none) (hi : (s.terminals t).inputQueue=[]) :
      Op M allow false s (blockCurrent (.readQueue t) k u s)
  /-- Become the writer of an idle terminal and start the first chunk. -/
  | startWrite {s : Kernel} (env : Env) (t buf : ℕ) (len : ℤ) (k : KernelContext)
      (u : UserContext) (hk : k.point=.ttyWrite t len) (h : MayBlock s) (ht : t<M.numTerminals)
      (hl : 0<len) (hw : (s.terminals t).writer=0) (hb : (s.terminals t).busy=false) :
      Op M allow false s (ttyTransmit M t (becomeWriter t (prepareWrite env k t buf len u s)))
  /-- Queue behind the writer of a terminal. -/
  | queueWrite {s : Kernel} (env : Env) (t buf : ℕ) (len : ℤ) (k : KernelContext)
      (u : UserContext) (hk : k.point=.ttyWrite t len) (h : MayBlock s) (ht : t<M.numTerminals)
      (hl : 0<len) (hw : ¬((s.terminals t).writer=0 ∧ (s.terminals t).busy=false)) :
      Op M allow false s (queueWriter t (prepareWrite env k t buf len u s))
  /-- Wake the first process of a pipe or condition variable. -/
  | wake {s : Kernel} (q : QueueAddr) (w : PcbPtr) (rest : List PcbPtr) (u : UserContext)
      (hn : (∃ i,q=.readers i) ∨ ∃ i,q=.cvarWaiters i) (hq : s.queue q=w::rest)
      (ho : allow (.wakes q)) :
      Op M allow true s (markReady {s with
        queue := Function.update s.queue q rest
        blockQueue := Function.update s.blockQueue w none
        userContext := Function.update s.userContext w u
        log := s.log++[.woken w (.pop q)]} w)
  /-- A pipe is created in a free slot. -/
  | openPipe {s : Kernel} (env : Env) (i : ℕ) (hi : i<IPC_MAX_OBJECTS) (h : s.objects i=.free)
      (ho : allow (.opens i .pipeInit s.live s.kernelContext)) :
      Op M allow true s {s with
        objects := Function.update s.objects i (.pipe ⟨env.junk,0,M.pipeBufferLen,s.stamp⟩)
        queue := Function.update s.queue (.readers i) []
        stamp := s.stamp+1}
  /-- A lock is created in a free slot. -/
  | openLock {s : Kernel} (i : ℕ) (hi : i<IPC_MAX_OBJECTS) (h : s.objects i=.free)
      (ho : allow (.opens i .lockInit s.live s.kernelContext)) :
      Op M allow true s {s with
        objects := Function.update s.objects i (.lock ⟨0,s.stamp⟩)
        queue := Function.update s.queue (.lockWaiters i) []
        stamp := s.stamp+1}
  /-- Create a condition variable. -/
  | openCvar {s : Kernel} (i : ℕ) (hi : i<IPC_MAX_OBJECTS) (h : s.objects i=.free)
      (ho : allow (.opens i .cvarInit s.live s.kernelContext)) :
      Op M allow true s {s with
        objects := Function.update s.objects i (.cvar ⟨s.stamp⟩)
        queue := Function.update s.queue (.cvarWaiters i) []
        stamp := s.stamp+1}
  /-- Take bytes from a pipe. -/
  | takeBytes {s : Kernel} (i : ℕ) (pipe : PipeState) (len : ℤ) (h : s.objects i=.pipe pipe)
      (hl : 0<len) (hp : pipe.len≠0) :
      Op M allow true s {s with
        objects := Function.update s.objects i (.pipe (consumeBytes pipe (readCount pipe len)))
        log := s.log++[.pipeReturned pipe.opened
          (ByteCopy.contents pipe.buf (readCount pipe len).toNat)]}
  /-- Append bytes to a pipe whose readers have been woken. -/
  | putBytes {s : Kernel} (env : Env) (i : ℕ) (pipe grown : PipeState) (buf : ℕ) (len : ℤ)
      (h : s.objects i=.pipe pipe) (hl : 0<len) (hr : s.queue (.readers i)=[])
      (hg : pipeEnsureCapacity env pipe (wrap32 (pipe.len+len))=.enough grown)
      (ho : allow (.put pipe.opened pipe.len len)) :
      Op M allow true s {s with
        objects := Function.update s.objects i (.pipe (appendBytes grown env.mem buf len))
        log := s.log++[.pipeWrote pipe.opened (ByteCopy.segment env.mem buf len.toNat)]}
  /-- Take a free lock. -/
  | lockTake {s : Kernel} (i : ℕ) (l : LockState) (h : MayBlock s) (ho : s.objects i=.lock l)
      (hl : l.owner=0) : Op M allow true s (takeLock i l s)
  /-- Resume an acquirer that owns its lock. -/
  | lockResume {s : Kernel} (id : ℤ) (l : LockState) (h : Runnable s)
      (hk : (s.kernelContext s.currentProcess).point=.acquire id l.opened)
      (ho : getObject s id=.lock l) (hl : l.owner=s.currentProcess) :
      Op M allow true s ((s.setKernelContext s.currentProcess
        ⟨s.currentProcess,.executing⟩).emit (.lockResumed l.opened s.currentProcess))
  /-- Free an object that is not in use. -/
  | reclaim {s : Kernel} (i : ℕ) (h : inUse s i (s.objects i)=false)
      (ho : allow (.reclaims i s.live s.kernelContext)) :
      Op M allow true s {s with objects := Function.update s.objects i .free}
  /-- Take bytes of a handed line. -/
  | takeHanded {s : Kernel} (t : ℕ) (line : TtyLine)
      (hk : (s.kernelContext s.currentProcess).point=.ttyRead t)
      (h : (s.tty s.currentProcess).readLine=some line)
      (ho : allow (.handed line (s.tty s.currentProcess).readLen (s.terminals t).line
        (s.queue (.readQueue t)))) :
      Op M allow true s (ttyTakeBytes t line (s.terminals t)
        (s.setKernelContext s.currentProcess ⟨s.currentProcess,.executing⟩))
  /-- Take bytes of the next line of a terminal. -/
  | takeLine {s : Kernel} (t : ℕ) (line : TtyLine) (tty : TtyState) (ha : Active s)
      (h : ttyNextLine (s.terminals t)=(some line,tty)) :
      Op M allow true s (ttyTakeBytes t line tty s)
  /-- Hand a received line to the first reader. -/
  | deliver {s : Kernel} (t : ℕ) (line : TtyLine) (r : PcbPtr) (rest : List PcbPtr)
      (hl : line.stamp=s.stamp ∧ line.pos=0) (hq : s.queue (.readQueue t)=r::rest) :
      Op M allow true s (markReady {s with
        queue := Function.update s.queue (.readQueue t) rest
        blockQueue := Function.update s.blockQueue r none
        tty := Function.update s.tty r {s.tty r with readLine := some line}
        stamp := s.stamp+1
        log := s.log++[.ttyReceived t line.stamp line.len line.data,
          .woken r (.pop (.readQueue t))]} r)
  /-- Queue a received line. -/
  | enqueue {s : Kernel} (t : ℕ) (line : TtyLine) (hl : line.stamp=s.stamp ∧ line.pos=0)
      (hq : s.queue (.readQueue t)=[]) : Op M allow true s (enqueueLine t line s)
  /-- A completion trap without a writer. -/
  | transmitSpurious {s : Kernel} (t : ℕ) (hw : (s.terminals t).writer=0)
      (ho : allow (.completes t s.log)) :
      Op M allow true s (transmitDone t s)
  /-- A chunk has completed and the next one of the writer starts. -/
  | transmitMore {s : Kernel} (t : ℕ) (hw : (s.terminals t).writer≠0)
      (hf : (s.tty (s.terminals t).writer).writeOffset<(s.tty (s.terminals t).writer).writeLen)
      (ho : allow (.completes t s.log)) :
      Op M allow true s (ttyTransmit M t (transmitDone t s))
  /-- The last chunk of the only writer has completed. -/
  | transmitLast {s : Kernel} (t : ℕ) (u : UserContext) (hw : (s.terminals t).writer≠0)
      (hf : (s.tty (s.terminals t).writer).writeLen≤(s.tty (s.terminals t).writer).writeOffset)
      (hq : s.queue (.writeQueue t)=[]) (ho : allow (.completes t s.log)) :
      Op M allow true s (releaseWriter t u s)
  /-- The last chunk of a writer has completed and the next writer starts. -/
  | transmitNext {s : Kernel} (t : ℕ) (u : UserContext) (w : PcbPtr) (rest : List PcbPtr)
      (hw : (s.terminals t).writer≠0)
      (hf : (s.tty (s.terminals t).writer).writeLen≤(s.tty (s.terminals t).writer).writeOffset)
      (hq : s.queue (.writeQueue t)=w::rest) (ho : allow (.completes t s.log)) :
      Op M allow true s (ttyTransmit M t (nextWriter t w rest (releaseWriter t u s)))

end Yalnix.Operations

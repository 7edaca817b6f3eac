import Yalnix.Scheduling
import Yalnix.ByteCopy

/-!
# Pipes, locks and condition variables

Object identifiers are C ints and are checked again after every block. The
capacity of a pipe is computed in 32-bit arithmetic that wraps around. A
released lock is handed to its first waiter, which runs only later.
-/

namespace Yalnix.Ipc

open Framework FrameTable KernelState Scheduling

/-- The entry an identifier denotes, free outside the table. -/
def getObject (s : Kernel) (id : ℤ) : IpcObject :=
  if id<0 ∨ (IPC_MAX_OBJECTS : ℤ)≤ id then .free else s.objects id.toNat

/-- Whether an entry is unused. -/
def isFree : IpcObject → Bool
  | .free => true
  | _ => false

/-- The lowest entry of the table that is not in use. -/
def allocObject (s : Kernel) : Option ℕ :=
  (List.range IPC_MAX_OBJECTS).find? (fun i => isFree (s.objects i))

/-- Link the current process on a queue in state blocked. -/
def blockCurrent (q : QueueAddr) (k : KernelContext) (uctxt : UserContext) (s : Kernel) : Kernel :=
  {s with
    userContext := Function.update s.userContext s.currentProcess uctxt
    kernelContext := Function.update s.kernelContext s.currentProcess k
    state := Function.update s.state s.currentProcess .blocked
    blockQueue := Function.update s.blockQueue s.currentProcess (some q)
    queue := Function.update s.queue q (s.queue q++[s.currentProcess])}

/-- Block the current process on a queue and schedule. -/
def blockOnQueue (M : Machine) (env : Env) (q : QueueAddr) (k : KernelContext)
    (uctxt : UserContext) (s : Kernel) : Kernel :=
  processSchedule M env (blockCurrent q k uctxt s)

/-- Remove the first process of a queue and make it ready. -/
def wakeOne (q : QueueAddr) (s : Kernel) : PcbPtr × Kernel :=
  match s.queue q with
  | [] => (0,s)
  | w::rest =>
    (w,processMakeReady {s with
      queue := Function.update s.queue q rest
      blockQueue := Function.update s.blockQueue w none
      userContext := Function.update s.userContext w ((s.userContext w).setResult SUCCESS)
      log := s.log++[.woken w (.pop q)]} w)

/-- Wake every process of a queue, first one first. -/
def wakeAll (q : QueueAddr) (s : Kernel) : Kernel :=
  (fun s => (wakeOne q s).2)^[(s.queue q).length] s

/-- SysPipeInit: create a pipe and store its number. -/
def sysPipeInit (M : Machine) (env : Env) (pipeIdp : ℕ) (uctxt : UserContext) (s : Kernel) : Flow :=
  if pipeIdp=0 then .returns s uctxt ERROR
  else match allocObject s with
    | none => .returns s uctxt ERROR
    | some id =>
      if env.malloc 0=true then
        .returns {s with
          objects := Function.update s.objects id
            (.pipe ⟨env.junk,0,M.pipeBufferLen,s.stamp⟩)
          queue := Function.update s.queue (.readers id) []
          stamp := s.stamp+1
          log := s.log++[.stored s.currentProcess pipeIdp 4]} uctxt SUCCESS
      else .returns s uctxt ERROR

/-- Take count bytes from the front of a pipe buffer. -/
def consumeBytes (pipe : PipeState) (count : ℤ) : PipeState :=
  {pipe with
    len := pipe.len-count
    buf := if 0<pipe.len-count then
        ByteCopy.copyWithin 0 count.toNat (pipe.len-count).toNat pipe.buf
      else pipe.buf}

/-- The bytes a read of len bytes gets. -/
def readCount (pipe : PipeState) (len : ℤ) : ℤ :=
  if len<pipe.len then len else pipe.len

/-- The loop of SysPipeRead: block while the pipe is empty, else take bytes. -/
def pipeReadLoop (M : Machine) (env : Env) (caller : PcbPtr) (pipeId : ℤ) (buf : ℕ) (len : ℤ)
    (uctxt : UserContext) (s : Kernel) : Flow :=
  match getObject s pipeId with
  | .pipe pipe =>
    if pipe.len=0 then
      .leaves (blockOnQueue M env (.readers pipeId.toNat)
        ⟨caller,.pipeRead pipeId buf len pipe.opened⟩ uctxt s)
    else
      .returns {s with
        objects := Function.update s.objects pipeId.toNat
          (.pipe (consumeBytes pipe (readCount pipe len)))
        log := s.log++[.stored s.currentProcess buf (readCount pipe len).toNat,
          .pipeReturned pipe.opened
            (ByteCopy.contents pipe.buf (readCount pipe len).toNat)]} uctxt (readCount pipe len)
  | _ => .returns s uctxt ERROR

/-- SysPipeRead: take bytes from a pipe or wait for them. -/
def sysPipeRead (M : Machine) (env : Env) (caller : PcbPtr) (pipeId : ℤ) (buf : ℕ) (len : ℤ)
    (uctxt : UserContext) (s : Kernel) : Flow :=
  if len<0 ∨ (buf=0 ∧ 0<len) then .returns s uctxt ERROR
  else if len=0 then .returns s uctxt 0
  else if s.currentProcess=0 ∨ s.currentProcess=s.idleProcess then .returns s uctxt ERROR
  else pipeReadLoop M env caller pipeId buf len uctxt s

/-- The doubling loop of PipeEnsureCapacity. After 32 doublings a capacity is
zero for ever, so the loop does not end when this fuel runs out. -/
def doubleCapacity (needed : ℤ) : ℕ → ℤ → Option ℤ
  | 0,_ => none
  | n+1,cap => if cap<needed then doubleCapacity needed n (wrap32 (cap*2)) else some cap

/-- What PipeEnsureCapacity has found or done. -/
inductive Capacity
  /-- The buffer is large enough or has been replaced. -/
  | enough (pipe : PipeState)
  /-- The allocation of the larger buffer failed. -/
  | error
  /-- The doubling loop does not end. -/
  | diverges

/-- Grow a pipe buffer by doubling until it holds the needed bytes. -/
def pipeEnsureCapacity (env : Env) (pipe : PipeState) (needed : ℤ) : Capacity :=
  if needed≤pipe.cap then .enough pipe
  else match doubleCapacity needed 64 pipe.cap with
    | none => .diverges
    | some newCap =>
      if env.malloc 0=true then
        .enough {pipe with
          buf := ByteCopy.copyBetween pipe.buf 0 0 pipe.len.toNat env.junk
          cap := newCap}
      else .error

/-- Append bytes from user memory behind the buffered ones. -/
def appendBytes (pipe : PipeState) (mem : ℕ → UInt8) (buf : ℕ) (len : ℤ) : PipeState :=
  {pipe with
    buf := ByteCopy.copyBetween mem pipe.len.toNat buf len.toNat pipe.buf
    len := wrap32 (pipe.len+len)}

/-- Write to a pipe and wake all its readers. -/
def sysPipeWrite (env : Env) (pipeId : ℤ) (buf : ℕ) (len : ℤ)
    (uctxt : UserContext) (s : Kernel) : Flow :=
  if len<0 ∨ (buf=0 ∧ 0<len) then .returns s uctxt ERROR
  else if len=0 then .returns s uctxt 0
  else match getObject s pipeId with
    | .pipe pipe =>
      match pipeEnsureCapacity env pipe (wrap32 (pipe.len+len)) with
      | .error => .returns s uctxt ERROR
      | .diverges => .leaves {s with cpu := .diverged}
      | .enough grown =>
        .returns ((wakeAll (.readers pipeId.toNat) {s with
          objects := Function.update s.objects pipeId.toNat
            (.pipe (appendBytes grown env.mem buf len))
          log := s.log++[.loaded s.currentProcess buf len.toNat]}).emit
            (.pipeWrote pipe.opened (ByteCopy.segment env.mem buf len.toNat))) uctxt len
    | _ => .returns s uctxt ERROR

/-- SysLockInit: create a lock and store its number. -/
def sysLockInit (lockIdp : ℕ) (uctxt : UserContext) (s : Kernel) : Flow :=
  if lockIdp=0 then .returns s uctxt ERROR
  else match allocObject s with
    | none => .returns s uctxt ERROR
    | some id =>
      .returns {s with
        objects := Function.update s.objects id (.lock ⟨0,s.stamp⟩)
        queue := Function.update s.queue (.lockWaiters id) []
        stamp := s.stamp+1
        log := s.log++[.stored s.currentProcess lockIdp 4]} uctxt SUCCESS

/-- Make a free lock the property of the current process. -/
def takeLock (i : ℕ) (lock : LockState) (s : Kernel) : Kernel :=
  {s with
    objects := Function.update s.objects i (.lock {lock with owner := s.currentProcess})
    log := s.log++[.lockTaken lock.opened s.currentProcess]}

/-- Join the waiters of a lock, without scheduling. -/
def blockOnLock (i : ℕ) (lock : LockState) (k : KernelContext) (uctxt : UserContext)
    (s : Kernel) : Kernel :=
  (blockCurrent (.lockWaiters i) k uctxt s).emit (.lockBlocked lock.opened s.currentProcess)

/-- The loop of LockAcquire: wait while the lock is owned, else take it. -/
def lockAcquireLoop (M : Machine) (env : Env) (caller : PcbPtr) (lockId : ℤ) (lock : LockState)
    (uctxt : UserContext) (s : Kernel) : Flow :=
  if lock.owner≠0 then
    .leaves (processSchedule M env (blockOnLock lockId.toNat lock
      ⟨caller,.acquire lockId lock.opened⟩ uctxt s))
  else .returns (takeLock lockId.toNat lock s) uctxt SUCCESS

/-- LockAcquire: take a lock or wait until it is handed over. -/
def lockAcquire (M : Machine) (env : Env) (caller : PcbPtr) (lockId : ℤ)
    (uctxt : UserContext) (s : Kernel) : Flow :=
  match getObject s lockId with
  | .lock lock =>
    if s.currentProcess=0 ∨ s.currentProcess=s.idleProcess then .returns s uctxt ERROR
    else if lock.owner=s.currentProcess then .returns s uctxt ERROR
    else lockAcquireLoop M env caller lockId lock uctxt s
  | _ => .returns s uctxt ERROR

/-- LockAcquire behind BlockOnQueue: look the lock up again and either find it
granted or go on with the loop. -/
def lockAcquireResume (M : Machine) (env : Env) (caller : PcbPtr) (lockId : ℤ)
    (uctxt : UserContext) (s : Kernel) : Flow :=
  match getObject s lockId with
  | .lock lock =>
    if lock.owner=s.currentProcess then
      .returns (s.emit (.lockResumed lock.opened s.currentProcess)) uctxt SUCCESS
    else lockAcquireLoop M env caller lockId lock uctxt s
  | _ => .returns s uctxt ERROR

/-- Clear the owner of a lock. -/
def clearOwner (i : ℕ) (lock : LockState) (s : Kernel) : Kernel :=
  {s with
    objects := Function.update s.objects i (.lock {lock with owner := 0})
    log := s.log++[.lockReleased lock.opened lock.owner]}

/-- Hand a lock to a process that has just been woken. -/
def grantLock (i : ℕ) (lock : LockState) (w : PcbPtr) (s : Kernel) : Kernel :=
  {s with
    objects := Function.update s.objects i (.lock {lock with owner := w})
    log := s.log++[.lockGranted lock.opened w]}

/-- Release a lock and hand it to the first waiter, if any. -/
def lockRelease (i : ℕ) (lock : LockState) (s : Kernel) : Kernel :=
  if (wakeOne (.lockWaiters i) (clearOwner i lock s)).1≠0 then
    grantLock i lock (wakeOne (.lockWaiters i) (clearOwner i lock s)).1
      (wakeOne (.lockWaiters i) (clearOwner i lock s)).2
  else (wakeOne (.lockWaiters i) (clearOwner i lock s)).2

/-- One round of the loop over the object table at exit. -/
def releaseIfOwned (p : PcbPtr) (s : Kernel) (i : ℕ) : Kernel :=
  match s.objects i with
  | .lock lock => if lock.owner=p then lockRelease i lock s else s
  | _ => s

/-- Release every lock of an exiting process. -/
def ipcProcessExit (p : PcbPtr) (s : Kernel) : Kernel :=
  (List.range IPC_MAX_OBJECTS).foldl (releaseIfOwned p) s

/-- Release a lock on behalf of its owner. -/
def sysRelease (lockId : ℤ) (uctxt : UserContext) (s : Kernel) : Flow :=
  match getObject s lockId with
  | .lock lock =>
    if lock.owner≠s.currentProcess then .returns s uctxt ERROR
    else .returns (lockRelease lockId.toNat lock s) uctxt SUCCESS
  | _ => .returns s uctxt ERROR

/-- SysCvarInit: create a condition variable and store its number. -/
def sysCvarInit (cvarIdp : ℕ) (uctxt : UserContext) (s : Kernel) : Flow :=
  if cvarIdp=0 then .returns s uctxt ERROR
  else match allocObject s with
    | none => .returns s uctxt ERROR
    | some id =>
      .returns {s with
        objects := Function.update s.objects id (.cvar ⟨s.stamp⟩)
        queue := Function.update s.queue (.cvarWaiters id) []
        stamp := s.stamp+1
        log := s.log++[.stored s.currentProcess cvarIdp 4]} uctxt SUCCESS

/-- Wake the longest waiting process of a condition variable. -/
def sysCvarSignal (cvarId : ℤ) (uctxt : UserContext) (s : Kernel) : Flow :=
  match getObject s cvarId with
  | .cvar _ => .returns (wakeOne (.cvarWaiters cvarId.toNat) s).2 uctxt SUCCESS
  | _ => .returns s uctxt ERROR

/-- Wake every process of a condition variable. -/
def sysCvarBroadcast (cvarId : ℤ) (uctxt : UserContext) (s : Kernel) : Flow :=
  match getObject s cvarId with
  | .cvar _ => .returns (wakeAll (.cvarWaiters cvarId.toNat) s) uctxt SUCCESS
  | _ => .returns s uctxt ERROR

/-- Join the waiters of a condition variable, without scheduling. -/
def blockOnCvar (i : ℕ) (k : KernelContext) (uctxt : UserContext) (s : Kernel) : Kernel :=
  (blockCurrent (.cvarWaiters i) k uctxt s).emit (.cvarBlocked i s.currentProcess)

/-- Release a lock and wait on a condition variable. -/
def sysCvarWait (M : Machine) (env : Env) (caller : PcbPtr) (cvarId lockId : ℤ)
    (uctxt : UserContext) (s : Kernel) : Flow :=
  match getObject s cvarId,getObject s lockId with
  | .cvar cvar,.lock lock =>
    if lock.owner≠s.currentProcess then .returns s uctxt ERROR
    else
      .leaves (processSchedule M env (blockOnCvar cvarId.toNat
        ⟨caller,.cvarWait cvarId lockId cvar.opened lock.opened⟩ uctxt
        (lockRelease lockId.toNat lock s)))
  | _,_ => .returns s uctxt ERROR

/-- SysCvarWait behind BlockOnQueue: acquire the lock again. -/
def cvarWaitResume (M : Machine) (env : Env) (caller : PcbPtr) (cvarId lockId : ℤ)
    (uctxt : UserContext) (s : Kernel) : Flow :=
  match getObject s cvarId with
  | .cvar _ => lockAcquire M env caller lockId uctxt s
  | _ => .returns s uctxt ERROR

/-- Whether Reclaim is refused for an object in use. -/
def inUse (s : Kernel) (i : ℕ) : IpcObject → Bool
  | .free => true
  | .pipe _ => !(s.queue (.readers i)).isEmpty
  | .lock lock => lock.owner≠0 || !(s.queue (.lockWaiters i)).isEmpty
  | .cvar _ => !(s.queue (.cvarWaiters i)).isEmpty

/-- Free an object that is not in use. -/
def sysReclaim (id : ℤ) (uctxt : UserContext) (s : Kernel) : Flow :=
  if inUse s id.toNat (getObject s id)=true then .returns s uctxt ERROR
  else .returns {s with objects := Function.update s.objects id.toNat .free} uctxt SUCCESS

end Yalnix.Ipc

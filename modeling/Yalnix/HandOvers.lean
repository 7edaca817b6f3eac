import Yalnix.Exits
import Yalnix.WokenCalls

/-!
# When the processor changes hands

The processor goes to another process in a clock trap, when a process ends and
when a call has to wait. A call that has to wait leaves its process blocked in
one way, behind those that wait for the same, and the first process in line
goes on.
-/

namespace Yalnix.HandOvers

open Framework FrameTable KernelState Scheduling Ipc Terminals ProcessLifetime ProgramLoading
open Syscalls Traps KernelStart Coherence Operations OperationCoherence StepOperations
open CallOperations RunInvariants Traces KernelEntries Continuations ClockTicks WokenCalls Exits
open Halting

variable {M : Machine} {env : Env} {s t x y : Kernel} {u v : UserContext} {input : Input}
  {k : KernelContext} {log : List Event} {caller : PcbPtr} {q : QueueAddr}

section Sleeping

/-- The current process is blocked, with these registers and this kernel stack. -/
def asleep (k : KernelContext) (v : UserContext) (s : Kernel) : Kernel :=
  {s with
    userContext := Function.update s.userContext s.currentProcess v
    kernelContext := Function.update s.kernelContext s.currentProcess k
    state := Function.update s.state s.currentProcess .blocked}

/-- The current process stands at the end of a queue. -/
def lined (q : QueueAddr) (s : Kernel) : Kernel :=
  {s with
    blockQueue := Function.update s.blockQueue s.currentProcess (some q)
    queue := Function.update s.queue q (s.queue q++[s.currentProcess])}

/-- The current process has asked to read from a terminal. -/
def reading (i buf len : ℕ) (s : Kernel) : Kernel :=
  s.setTty s.currentProcess {s.tty s.currentProcess with
    ttyId := i, readBuf := buf, readLen := len}

/-- The current process has asked to write to a terminal, and so many bytes are on the way. -/
def writing (i : ℕ) (bytes : ℕ → UInt8) (len sent : ℕ) (s : Kernel) : Kernel :=
  s.setTty s.currentProcess {s.tty s.currentProcess with
    ttyId := i, writeBuf := bytes, writeLen := len, writeOffset := sent}

/-- The bytes in user memory from an address on. -/
def bytesAt (env : Env) (buf : ℕ) (i : ℕ) : UInt8 := env.mem (buf+i)

/-- A process other than idle makes this call. -/
structure Asks (M : Machine) (s : Kernel) (u : UserContext) (call : Syscall) : Prop where
  /-- The trap of a system call. -/
  vector : u.vector=.kernel
  /-- The registers ask for this call. -/
  call : M.syscallOf u.code=call
  /-- The idle process does not get as far as blocking. -/
  notIdle : s.currentProcess≠s.idleProcess

/-- The entries in which the current process has to wait, and what has been done
for it when the scheduler is called. -/
inductive Sleeps (M : Machine) (env : Env) (s : Kernel) : Input → Kernel → Prop
  /-- Wait, while no child has ended. -/
  | wait {u : UserContext} (h : Asks M s u .wait) (hc : s.children s.currentProcess≠[])
      (hz : ∀ c∈s.children s.currentProcess,s.state c≠.zombie) :
      Sleeps M env s (.trap u) (asleep ⟨s.currentProcess,.wait (u.ptr 0)⟩ u {s with
        waitingForChild := Function.update s.waitingForChild s.currentProcess true})
  /-- Delay for at least one tick. -/
  | delay {u : UserContext} (h : Asks M s u .delay) (ht : 0<u.int 0) :
      Sleeps M env s (.trap u) (asleep ⟨s.currentProcess,.delay⟩ (u.setResult SUCCESS) {s with
        delayUntil := Function.update s.delayUntil s.currentProcess (delayDeadline s (u.int 0))})
  /-- TtyRead of a terminal without input. -/
  | ttyRead {u : UserContext} (h : Asks M s u .ttyRead) (ht : ttyValid M (u.int 0)=true)
      (hb : u.ptr 1≠0) (hl : 0<u.int 2) (hn : (s.terminals (u.int 0).toNat).line=none)
      (hq : (s.terminals (u.int 0).toNat).inputQueue=[]) :
      Sleeps M env s (.trap u) (lined (.readQueue (u.int 0).toNat)
        (asleep ⟨s.currentProcess,.ttyRead (u.int 0).toNat⟩ u
          (reading (u.int 0).toNat (u.ptr 1) (u.int 2).toNat s)))
  /-- TtyWrite to a terminal without a writer, which starts with the first chunk. -/
  | ttyWrite {u : UserContext} (h : Asks M s u .ttyWrite) (ht : ttyValid M (u.int 0)=true)
      (hb : u.ptr 1≠0) (hl : 0<u.int 2) (hm : env.malloc 0=true)
      (hw : (s.terminals (u.int 0).toNat).writer=0)
      (hf : (s.terminals (u.int 0).toNat).busy=false) :
      Sleeps M env s (.trap u) (asleep
        ⟨s.currentProcess,.ttyWrite (u.int 0).toNat (u.int 2)⟩ (u.setResult (u.int 2))
        {writing (u.int 0).toNat (bytesAt env (u.ptr 1)) (u.int 2).toNat
            (min M.terminalMaxLine (u.int 2).toNat) s with
          terminals := Function.update s.terminals (u.int 0).toNat
            {s.terminals (u.int 0).toNat with writer := s.currentProcess, busy := true}})
  /-- TtyWrite to a terminal with a writer. -/
  | ttyQueue {u : UserContext} (h : Asks M s u .ttyWrite) (ht : ttyValid M (u.int 0)=true)
      (hb : u.ptr 1≠0) (hl : 0<u.int 2) (hm : env.malloc 0=true)
      (hw : ¬((s.terminals (u.int 0).toNat).writer=0 ∧
        (s.terminals (u.int 0).toNat).busy=false)) :
      Sleeps M env s (.trap u) (lined (.writeQueue (u.int 0).toNat) (asleep
        ⟨s.currentProcess,.ttyWrite (u.int 0).toNat (u.int 2)⟩ (u.setResult (u.int 2))
        (writing (u.int 0).toNat (bytesAt env (u.ptr 1)) (u.int 2).toNat 0 s)))
  /-- PipeRead of an empty pipe. -/
  | pipeRead {u : UserContext} {pipe : PipeState} (h : Asks M s u .pipeRead) (hb : u.ptr 1≠0)
      (hl : 0<u.int 2) (ho : getObject s (u.int 0)=.pipe pipe) (he : pipe.len=0) :
      Sleeps M env s (.trap u) (lined (.readers (u.int 0).toNat)
        (asleep ⟨s.currentProcess,.pipeRead (u.int 0) (u.ptr 1) (u.int 2) pipe.opened⟩ u s))
  /-- Acquire of a lock of another process. -/
  | acquire {u : UserContext} {l : LockState} (h : Asks M s u .acquire)
      (ho : getObject s (u.int 0)=.lock l) (h0 : l.owner≠0) (hn : l.owner≠s.currentProcess) :
      Sleeps M env s (.trap u) (lined (.lockWaiters (u.int 0).toNat)
        (asleep ⟨s.currentProcess,.acquire (u.int 0) l.opened⟩ u s))
  /-- CvarWait with a lock of the caller, which is passed on. -/
  | cvarWait {u : UserContext} {cvar : CvarState} {l : LockState} (h : Asks M s u .cvarWait)
      (ho : getObject s (u.int 0)=.cvar cvar) (hl : getObject s (u.int 1)=.lock l)
      (hn : l.owner=s.currentProcess) :
      Sleeps M env s (.trap u) (lined (.cvarWaiters (u.int 0).toNat)
        (asleep ⟨s.currentProcess,.cvarWait (u.int 0) (u.int 1) cvar.opened l.opened⟩ u
          (passedOn s.currentProcess [(u.int 1).toNat] s.log s)))
  /-- A PipeRead that was woken, when others have emptied the pipe again. -/
  | emptied {id : ℤ} {buf : ℕ} {len : ℤ} {g : ℕ} {pipe : PipeState}
      (hk : (s.kernelContext s.currentProcess).point=.pipeRead id buf len g)
      (ho : getObject s id=.pipe pipe) (he : pipe.len=0) :
      Sleeps M env s .resume (lined (.readers id.toNat)
        (asleep ⟨(s.kernelContext s.currentProcess).caller,.pipeRead id buf len pipe.opened⟩
          (s.userContext s.currentProcess) s))
  /-- A CvarWait that was woken, when another process has the lock. -/
  | relocked {id lockId : ℤ} {g g' : ℕ} {cvar : CvarState} {l : LockState}
      (hk : (s.kernelContext s.currentProcess).point=.cvarWait id lockId g g')
      (ho : getObject s id=.cvar cvar) (hl : getObject s lockId=.lock l) (h0 : l.owner≠0)
      (hn : l.owner≠s.currentProcess) :
      Sleeps M env s .resume (lined (.lockWaiters lockId.toNat)
        (asleep ⟨(s.kernelContext s.currentProcess).caller,.acquire lockId l.opened⟩
          (s.userContext s.currentProcess) s))

/-- The trap of a call other than Exec. -/
theorem Asks.entry {call : Syscall} (h : Asks M s u call) (hc : call≠.exec) :
    u.vector=.kernel ∧ M.syscallOf u.code≠.exec := by
  refine ⟨h.vector,?_⟩
  rw [h.call]
  exact hc

/-- Every trap that has to wait is of that kind. -/
theorem Sleeps.entry (h : Sleeps M env s (.trap u) x) :
    u.vector=.kernel ∧ M.syscallOf u.code≠.exec := by
  cases h with
  | wait h => exact h.entry (by decide)
  | delay h => exact h.entry (by decide)
  | ttyRead h => exact h.entry (by decide)
  | ttyWrite h => exact h.entry (by decide)
  | ttyQueue h => exact h.entry (by decide)
  | pipeRead h => exact h.entry (by decide)
  | acquire h => exact h.entry (by decide)
  | cvarWait h => exact h.entry (by decide)

/-- The kernel when the scheduler has run for a process that sleeps. -/
def scheduled (M : Machine) (x : Kernel) : Kernel :=
  {x with
    state := fun p => if p=pick M x ∧ p≠x.currentProcess then .running
      else if p∈due M x then .ready else x.state p
    delayUntil := fun p => if p∈due M x then 0 else x.delayUntil p
    currentProcess := pick M x
    readyQueue := (x.readyQueue++due M x).tail
    memory := {x.memory with kernelRegion0Pt := pickedRegion0 M x}
    cpu := .kernel}

/-- A flow that puts the process to sleep as said. -/
def Sleeping (M : Machine) (env : Env) (x : Kernel) (f : Flow) : Prop :=
  ∃ log,f=.leaves (processSchedule M env {x with log := log}) ∧ Coherent M {x with log := log} ∧
    x.state x.currentProcess=.blocked

/-- The scheduler behind a process that sleeps. -/
theorem Sleeping.scheduled {f : Flow} (h : Sleeping M env x f) (hs : env.switchOk=true) :
    ∃ log,f=.leaves {scheduled M x with log := log} := by
  obtain ⟨log,hf,hc,hb⟩ := h
  obtain ⟨log',he⟩ := schedule_exact hc hs
  have hnone : requeued {x with log := log}=[] := by
    refine if_neg (fun hr => ?_)
    have hrun : x.state x.currentProcess=.running := hr.2
    rw [hb] at hrun
    cases hrun
  have hline : lineUp M {x with log := log}=x.readyQueue++due M x := by
    unfold lineUp
    rw [hnone,List.append_nil]
    rfl
  have hpick : pick M {x with log := log}=pick M x := rfl
  rw [hnone,hline,List.append_nil] at he
  exact ⟨log',hf.trans (congrArg Flow.leaves he)⟩

end Sleeping

section Calls

/-- A blocking operation puts the process to sleep. -/
theorem sleeping_op {f : Flow} (hc : Coherent M s) (hop : Op M (fun _ => True) false s y)
    (hf : f=.leaves (processSchedule M env y)) (hy : y={x with log := y.log})
    (hb : x.state x.currentProcess=.blocked) : Sleeping M env x f := by
  refine ⟨y.log,?_,?_,hb⟩
  · rw [←hy]
    exact hf
  · rw [←hy]
    exact op_coherent hc hop

/-- Wait blocks without an ended child. -/
theorem sysWait_blocks (hi : ¬(s.currentProcess=0 ∨ s.currentProcess=s.idleProcess))
    (hc : s.children s.currentProcess≠[]) (hz : ∀ c∈s.children s.currentProcess,s.state c≠.zombie)
    (a : ℕ) : sysWait M env caller a u s=
      .leaves (processSchedule M env (blockForChild ⟨caller,.wait a⟩ u s)) := by
  have hnone : zombieChild s s.currentProcess=none :=
    List.find?_eq_none.2 (fun c hm => by simpa using hz c hm)
  unfold sysWait waitLoop
  rw [if_neg hi,hnone]
  exact if_neg (by simpa using hc)

/-- Wait leaves the processor only if there are children and none has ended. -/
theorem sysWait_leaves {a : ℕ} (h : sysWait M env caller a u s=.leaves t) :
    s.currentProcess≠s.idleProcess ∧ s.children s.currentProcess≠[] ∧
      ∀ c∈s.children s.currentProcess,s.state c≠.zombie := by
  unfold sysWait at h
  split at h
  · cases h
  · rename_i hi
    unfold waitLoop at h
    split at h
    · cases h
    · rename_i hnone
      split at h
      · cases h
      · rename_i hc
        refine ⟨fun he => hi (.inr he),by simpa using hc,fun c hm => ?_⟩
        simpa using List.find?_eq_none.1 hnone c hm

/-- Delay blocks for a positive number of ticks. -/
theorem sysDelay_blocks (hi : ¬(s.currentProcess=0 ∨ s.currentProcess=s.idleProcess)) {n : ℤ}
    (hn : 0<n) : sysDelay M env caller n u s=
      .leaves (processSchedule M env (blockForDelay (delayDeadline s n) ⟨caller,.delay⟩ u s)) := by
  unfold sysDelay
  rw [if_neg (by omega),if_neg (by omega),if_neg hi]

/-- Delay leaves the processor only for a positive number of ticks. -/
theorem sysDelay_leaves {n : ℤ} (h : sysDelay M env caller n u s=.leaves t) :
    s.currentProcess≠s.idleProcess ∧ 0<n := by
  unfold sysDelay at h
  split at h
  · cases h
  · split at h
    · cases h
    · split at h
      · cases h
      · rename_i hi
        exact ⟨fun he => hi (.inr he),by omega⟩

/-- A terminal without a line and without input has no next line. -/
theorem ttyNextLine_none {tty : TtyState} :
    (ttyNextLine tty).1=none ↔ tty.line=none ∧ tty.inputQueue=[] := by
  unfold ttyNextLine
  constructor
  · intro h
    split at h
    · cases h
    · rename_i hl
      split at h
      · rename_i hq
        exact ⟨hl,hq⟩
      · cases h
  · rintro ⟨hl,hq⟩
    rw [hl,hq]

/-- The loop of TtyRead blocks without input. -/
theorem ttyReadLoop_blocks {i : ℕ} (hr : (s.tty s.currentProcess).readLine=none)
    (hn : (s.terminals i).line=none ∧ (s.terminals i).inputQueue=[]) :
    ttyReadLoop M env caller i u s=.leaves (processSchedule M env
      (blockCurrent (.readQueue i) ⟨caller,.ttyRead i⟩ u s)) := by
  have hline : (ttyNextLine (s.terminals i)).1=none := ttyNextLine_none.2 hn
  unfold ttyReadLoop
  split
  · rename_i line hl
    rw [hr] at hl
    cases hl
  · split
    · rename_i line tty he
      rw [he] at hline
      cases hline
    · rfl

/-- Arguments that a terminal call accepts. -/
theorem tty_checked {i : ℤ} {buf : ℕ} {len : ℤ} (ht : ttyValid M i=true) (hb : buf≠0)
    (hl : 0<len) : ¬(ttyValid M i=false ∨ len<0 ∨ (buf=0 ∧ 0<len)) := by
  rw [ht]
  simp [hb]
  omega

/-- TtyRead blocks without input. -/
theorem sysTtyRead_blocks (hi : ¬(s.currentProcess=0 ∨ s.currentProcess=s.idleProcess)) {i : ℤ}
    {buf : ℕ} {len : ℤ} (ht : ttyValid M i=true) (hb : buf≠0) (hl : 0<len)
    (hr : (s.tty s.currentProcess).readLine=none)
    (hn : (s.terminals i.toNat).line=none ∧ (s.terminals i.toNat).inputQueue=[]) :
    sysTtyRead M env caller i buf len u s=.leaves (processSchedule M env
      (blockCurrent (.readQueue i.toNat) ⟨caller,.ttyRead i.toNat⟩ u
        (reading i.toNat buf len.toNat s))) := by
  unfold sysTtyRead
  rw [if_neg (tty_checked ht hb hl),if_neg (by omega),if_neg hi]
  refine ttyReadLoop_blocks ?_ hn
  dsimp only [Kernel.setTty]
  rw [Function.update_self]
  exact hr

/-- TtyRead leaves the processor only if the terminal has no input. -/
theorem sysTtyRead_leaves {i : ℤ} {buf : ℕ} {len : ℤ}
    (h : sysTtyRead M env caller i buf len u s=.leaves t) :
    s.currentProcess≠s.idleProcess ∧ ttyValid M i=true ∧ buf≠0 ∧ 0<len ∧
      (s.terminals i.toNat).line=none ∧ (s.terminals i.toNat).inputQueue=[] := by
  unfold sysTtyRead at h
  split at h
  · cases h
  · rename_i hv
    split at h
    · cases h
    · split at h
      · cases h
      · rename_i hi
        have hl : 0<len := by omega
        have hn : (s.terminals i.toNat).line=none ∧ (s.terminals i.toNat).inputQueue=[] := by
          unfold ttyReadLoop at h
          split at h
          · cases h
          · split at h
            · cases h
            · rename_i he
              exact ttyNextLine_none.1 (congrArg Prod.fst he)
        exact ⟨fun he => hi (.inr he),by simpa using fun hf => hv (.inl hf),
          fun hb => hv (.inr (.inr ⟨hb,hl⟩)),hl,hn⟩

/-- TtyWrite starts at once on a free terminal. -/
theorem sysTtyWrite_starts (hi : ¬(s.currentProcess=0 ∨ s.currentProcess=s.idleProcess)) {i : ℤ}
    {buf : ℕ} {len : ℤ} (ht : ttyValid M i=true) (hb : buf≠0) (hl : 0<len) (hm : env.malloc 0=true)
    (hw : (s.terminals i.toNat).writer=0 ∧ (s.terminals i.toNat).busy=false) :
    sysTtyWrite M env caller i buf len u s=
      .leaves (processSchedule M env (ttyTransmit M i.toNat (becomeWriter i.toNat
        (prepareWrite env ⟨caller,.ttyWrite i.toNat len⟩ i.toNat buf len u s)))) := by
  unfold sysTtyWrite
  rw [if_neg (tty_checked ht hb hl),if_neg (by omega),if_neg hi,if_neg (by rw [hm]; decide),
    if_pos hw,startWrite_eq (fun h => hi (.inl h)) hl hw.2]

/-- TtyWrite waits behind another writer. -/
theorem sysTtyWrite_queues (hi : ¬(s.currentProcess=0 ∨ s.currentProcess=s.idleProcess)) {i : ℤ}
    {buf : ℕ} {len : ℤ} (ht : ttyValid M i=true) (hb : buf≠0) (hl : 0<len) (hm : env.malloc 0=true)
    (hw : ¬((s.terminals i.toNat).writer=0 ∧ (s.terminals i.toNat).busy=false)) :
    sysTtyWrite M env caller i buf len u s=
      .leaves (processSchedule M env (queueWriter i.toNat
        (prepareWrite env ⟨caller,.ttyWrite i.toNat len⟩ i.toNat buf len u s))) := by
  unfold sysTtyWrite
  rw [if_neg (tty_checked ht hb hl),if_neg (by omega),if_neg hi,if_neg (by rw [hm]; decide),
    if_neg hw]

/-- TtyWrite leaves the processor only with a terminal, a buffer and a positive
length. -/
theorem sysTtyWrite_leaves {i : ℤ} {buf : ℕ} {len : ℤ}
    (h : sysTtyWrite M env caller i buf len u s=.leaves t) :
    s.currentProcess≠s.idleProcess ∧ ttyValid M i=true ∧ buf≠0 ∧ 0<len ∧
      env.malloc 0=true := by
  unfold sysTtyWrite at h
  split at h
  · cases h
  · rename_i hv
    split at h
    · cases h
    · split at h
      · cases h
      · rename_i hi
        split at h
        · cases h
        · rename_i hm
          have hl : 0<len := by omega
          exact ⟨fun he => hi (.inr he),by simpa using fun hf => hv (.inl hf),
            fun hb => hv (.inr (.inr ⟨hb,hl⟩)),hl,by simpa using hm⟩

/-- The loop of PipeRead blocks on an empty pipe. -/
theorem pipeReadLoop_blocks {id : ℤ} {pipe : PipeState} (ho : getObject s id=.pipe pipe)
    (he : pipe.len=0) (buf : ℕ) (len : ℤ) : pipeReadLoop M env caller id buf len u s=
      .leaves (processSchedule M env (blockCurrent (.readers id.toNat)
        ⟨caller,.pipeRead id buf len pipe.opened⟩ u s)) := by
  unfold pipeReadLoop
  rw [ho]
  exact if_pos he

/-- The loop of PipeRead leaves the processor only on an empty pipe. -/
theorem pipeReadLoop_leaves {id : ℤ} {buf : ℕ} {len : ℤ}
    (h : pipeReadLoop M env caller id buf len u s=.leaves t) :
    ∃ pipe,getObject s id=.pipe pipe ∧ pipe.len=0 := by
  unfold pipeReadLoop at h
  split at h
  · rename_i pipe ho
    split at h
    · rename_i he
      exact ⟨pipe,ho,he⟩
    · cases h
  · cases h

/-- PipeRead goes to its loop. -/
theorem sysPipeRead_blocks (hi : ¬(s.currentProcess=0 ∨ s.currentProcess=s.idleProcess)) {id : ℤ}
    {buf : ℕ} {len : ℤ} (hb : buf≠0) (hl : 0<len) : sysPipeRead M env caller id buf len u s=
      pipeReadLoop M env caller id buf len u s := by
  unfold sysPipeRead
  rw [if_neg (by simp [hb]; omega),if_neg (by omega),if_neg hi]

/-- PipeRead blocks only in its loop. -/
theorem sysPipeRead_leaves {id : ℤ} {buf : ℕ} {len : ℤ}
    (h : sysPipeRead M env caller id buf len u s=.leaves t) :
    s.currentProcess≠s.idleProcess ∧ buf≠0 ∧ 0<len ∧
      ∃ pipe,getObject s id=.pipe pipe ∧ pipe.len=0 := by
  unfold sysPipeRead at h
  split at h
  · cases h
  · rename_i hv
    split at h
    · cases h
    · split at h
      · cases h
      · rename_i hi
        have hl : 0<len := by omega
        exact ⟨fun he => hi (.inr he),fun hb => hv (.inr ⟨hb,hl⟩),hl,pipeReadLoop_leaves h⟩

/-- LockAcquire blocks on a lock of another process. -/
theorem lockAcquire_blocks (hi : ¬(s.currentProcess=0 ∨ s.currentProcess=s.idleProcess)) {id : ℤ}
    {l : LockState} (ho : getObject s id=.lock l) (h0 : l.owner≠0) (hn : l.owner≠s.currentProcess) :
    lockAcquire M env caller id u s=.leaves (processSchedule M env
      (blockOnLock id.toNat l ⟨caller,.acquire id l.opened⟩ u s)) := by
  unfold lockAcquire lockAcquireLoop
  rw [ho]
  dsimp only
  rw [if_neg hi,if_neg hn,if_pos h0]

/-- LockAcquire leaves the processor only if another process owns the lock. -/
theorem lockAcquire_leaves {id : ℤ} (h : lockAcquire M env caller id u s=.leaves t) :
    s.currentProcess≠s.idleProcess ∧
      ∃ l,getObject s id=.lock l ∧ l.owner≠0 ∧ l.owner≠s.currentProcess := by
  unfold lockAcquire at h
  split at h
  · rename_i l ho
    split at h
    · cases h
    · rename_i hi
      split at h
      · cases h
      · rename_i hn
        unfold lockAcquireLoop at h
        split at h
        · rename_i h0
          exact ⟨fun he => hi (.inr he),l,ho,h0,hn⟩
        · cases h
  · cases h

/-- A woken CvarWait goes on in LockAcquire. -/
theorem cvarWaitResume_locks {id lockId : ℤ} {cvar : CvarState} (ho : getObject s id=.cvar cvar) :
    cvarWaitResume M env caller id lockId u s=lockAcquire M env caller lockId u s := by
  unfold cvarWaitResume
  rw [ho]

/-- It leaves the processor only there. -/
theorem cvarWaitResume_leaves {id lockId : ℤ}
    (h : cvarWaitResume M env caller id lockId u s=.leaves t) :
    (∃ cvar,getObject s id=.cvar cvar) ∧ lockAcquire M env caller lockId u s=.leaves t := by
  unfold cvarWaitResume at h
  split at h
  · rename_i cvar ho
    exact ⟨⟨cvar,ho⟩,h⟩
  · cases h

/-- CvarWait blocks if the caller owns the lock. -/
theorem sysCvarWait_blocks {id lockId : ℤ} {cvar : CvarState} {l : LockState}
    (ho : getObject s id=.cvar cvar) (hl : getObject s lockId=.lock l)
    (hn : l.owner=s.currentProcess) : sysCvarWait M env caller id lockId u s=
      .leaves (processSchedule M env (blockOnCvar id.toNat
        ⟨caller,.cvarWait id lockId cvar.opened l.opened⟩ u (lockRelease lockId.toNat l s))) := by
  unfold sysCvarWait
  rw [ho,hl]
  exact if_neg (not_not.2 hn)

/-- CvarWait leaves the processor only if the caller owned the lock. -/
theorem sysCvarWait_leaves {id lockId : ℤ}
    (h : sysCvarWait M env caller id lockId u s=.leaves t) :
    ∃ cvar l,getObject s id=.cvar cvar ∧ getObject s lockId=.lock l ∧
      l.owner=s.currentProcess := by
  unfold sysCvarWait at h
  split at h
  · rename_i cvar l ho hl
    split at h
    · cases h
    · rename_i hn
      exact ⟨cvar,l,ho,hl,not_not.1 hn⟩
  · cases h

/-- The current process has gone to sleep. -/
theorem asleep_blocked : (asleep k v s).state (asleep k v s).currentProcess=.blocked :=
  Function.update_self ..

/-- It sleeps in a queue. -/
theorem lined_blocked : (lined q (asleep k v s)).state (lined q (asleep k v s)).currentProcess=
    .blocked := Function.update_self ..

/-- The registers of the trap have been saved before. -/
theorem blockCurrent_saved (q : QueueAddr) : blockCurrent q k u
      (s.setUserContext s.currentProcess v)=lined q (asleep k u s) := by
  dsimp only [blockCurrent,lined,asleep,Kernel.setUserContext]
  rw [Function.update_idem]

/-- A read request keeps the registers that were saved before. -/
theorem reading_saved (i j buf len : ℕ) :
    blockCurrent (.readQueue i) k u (reading j buf len (s.setUserContext s.currentProcess v))=
      lined (.readQueue i) (asleep k u (reading j buf len s)) := by
  have hsame : reading j buf len (s.setUserContext s.currentProcess v)=
    (reading j buf len s).setUserContext (reading j buf len s).currentProcess v := rfl
  rw [hsame,blockCurrent_saved]

/-- The prepared write of a process that sleeps. -/
theorem prepareWrite_asleep (i buf : ℕ) (len : ℤ) :
    prepareWrite env k i buf len u (s.setUserContext s.currentProcess v)=
      {asleep k (u.setResult len) (writing i (bytesAt env buf) len.toNat 0 s) with
        log := s.log++[.loaded s.currentProcess buf len.toNat,
          .ttyWrote i s.currentProcess (ByteCopy.segment env.mem buf len.toNat)]} := by
  dsimp only [prepareWrite,asleep,writing,Kernel.setUserContext,Kernel.setTty]
  rw [Function.update_idem]
  rfl

/-- The first chunk of a write has been sent. -/
theorem startWrite_asleep (i buf : ℕ) (len : ℤ) :
    ttyTransmit M i (becomeWriter i
        (prepareWrite env k i buf len u (s.setUserContext s.currentProcess v)))=
      {asleep k (u.setResult len) {writing i (bytesAt env buf) len.toNat
          (min M.terminalMaxLine len.toNat) s with
        terminals := Function.update s.terminals i
          {s.terminals i with writer := s.currentProcess, busy := true}} with
        log := (ttyTransmit M i (becomeWriter i
          (prepareWrite env k i buf len u (s.setUserContext s.currentProcess v)))).log} := by
  have hchunk : 0+(if M.terminalMaxLine<len.toNat-0 then M.terminalMaxLine else len.toNat-0)=
      min M.terminalMaxLine len.toNat := by
    split
    · omega
    · omega
  rw [prepareWrite_asleep]
  dsimp only [ttyTransmit,becomeWriter,asleep,writing,Kernel.setTty,chunkLen]
  rw [Function.update_self]
  dsimp only
  rw [Function.update_self,Function.update_idem,Function.update_idem]
  dsimp only
  rw [hchunk]

/-- Whoever sleeps on a condition variable, whatever registers were saved before. -/
theorem blockOnCvar_asleep (i : ℕ) {c : PcbPtr → UserContext}
    (hc : Function.update c s.currentProcess u=
      Function.update s.userContext s.currentProcess u) :
    blockOnCvar i k u {s with userContext := c, log := log}=
      {lined (.cvarWaiters i) (asleep k u s) with
        log := log++[.cvarBlocked i s.currentProcess]} := by
  dsimp only [blockOnCvar,blockCurrent,lined,asleep,Kernel.emit]
  rw [hc]

/-- A lock has been passed on before the caller sleeps on a condition variable. -/
theorem blockOnCvar_passed (i j : ℕ) :
    blockOnCvar i k u (passedOn s.currentProcess [j] log (s.setUserContext s.currentProcess u))=
      {lined (.cvarWaiters i) (asleep k u (passedOn s.currentProcess [j] s.log s)) with
        log := log++[.cvarBlocked i s.currentProcess]} := by
  have hcontext : Function.update (passedOn s.currentProcess [j] log
        (s.setUserContext s.currentProcess u)).userContext s.currentProcess u=
      Function.update (passedOn s.currentProcess [j] s.log s).userContext s.currentProcess u := by
    funext p
    by_cases hp : p=s.currentProcess
    · rw [hp,Function.update_self,Function.update_self]
    · rw [Function.update_of_ne hp,Function.update_of_ne hp]
      dsimp only [passedOn,Kernel.setUserContext]
      rw [Function.update_of_ne hp]
      rfl
  exact blockOnCvar_asleep (s := passedOn s.currentProcess [j] s.log s) i hcontext

/-- CvarWait gives its lock away and blocks. -/
theorem cvarWait_op (hc : Coherent M s) (ha : Active s) {id lockId : ℤ} {cvar : CvarState}
    {l : LockState} (ho : getObject s id=.cvar cvar) (hl : getObject s lockId=.lock l)
    (hn : l.owner=s.currentProcess) (hp : k.point=.cvarWait id lockId cvar.opened l.opened) :
    Coherent M (lockRelease lockId.toNat l s) ∧ Op M (fun _ => True) false
      (lockRelease lockId.toNat l s) (blockOnCvar id.toNat k u (lockRelease lockId.toNat l s)) := by
  have hobj := objects_of_getObject ho (by simp)
  have hlobj := objects_of_getObject hl (by simp)
  have hrel : Calm M (fun _ => True) s (lockRelease lockId.toNat l s) :=
    lockRelease_calm hc ha hlobj hn
  obtain ⟨hrc,hra⟩ := calm_keeps hc ha hrel
  obtain ⟨hobjs,hcp,hip⟩ := lockRelease_frame (s := s) lockId.toNat l
  have hne : id.toNat≠lockId.toNat := by
    intro he
    rw [he,hlobj] at hobj
    cases hobj
  have hown := hc.owner.owner _ l hlobj (by rw [hn]; exact hc.ready.ne_null hc.ready.current_live)
  have hmb : MayBlock (lockRelease lockId.toNat l s) := by
    refine ⟨hra,?_⟩
    rw [hcp,hip,←hn]
    exact hown.2.1
  have hbound := getObject_bounds (show getObject s id≠.free by rw [ho]; simp)
  have hlbound := getObject_bounds (show getObject s lockId≠.free by rw [hl]; simp)
  obtain ⟨w,hw,hwn⟩ := lockRelease_owner hc ha lockId.toNat l
  have ho' : getObject (lockRelease lockId.toNat l s) id=.cvar cvar := by
    unfold getObject
    rw [if_neg (by omega),hobjs _ hne]
    exact hobj
  have hl' : getObject (lockRelease lockId.toNat l s) lockId=.lock {l with owner := w} := by
    unfold getObject
    rw [if_neg (by omega)]
    exact hw
  exact ⟨hrc,.blockCvar id lockId cvar l.opened k u hp hmb ho' ⟨_,hl',rfl,by rwa [hcp]⟩⟩

end Calls

section Entries

/-- A trap that has to wait puts its process to sleep. -/
theorem sleeps_trap (hset : Settled M s) (ha : Active s) (h : Sleeps M env s (.trap u) x) :
    Sleeping M env x (stepFlow M env s (.trap u)) := by
  have h0 := hset.ready.ne_null hset.ready.current_live
  have hc : Coherent M (s.setUserContext s.currentProcess u) := {hset.toCoherent with}
  have ha' : Active (s.setUserContext s.currentProcess u) := {ha with}
  have hmay : s.currentProcess≠s.idleProcess →
      MayBlock (s.setUserContext s.currentProcess u) := fun hi => ⟨ha',hi⟩
  have hchecks : s.currentProcess≠s.idleProcess →
      ¬((s.setUserContext s.currentProcess u).currentProcess=0 ∨
        (s.setUserContext s.currentProcess u).currentProcess=
          (s.setUserContext s.currentProcess u).idleProcess) := fun hi => not_or.2 ⟨h0,hi⟩
  dsimp only [stepFlow]
  rw [saveContext_current u h0]
  unfold callFlow
  cases h with
  | wait h hch hz =>
    rw [h.call]
    refine sleeping_op hc (.blockChild (u.ptr 0) _ u rfl (hmay h.notIdle) hch hz)
      (sysWait_blocks (hchecks h.notIdle) hch hz _) ?_ asleep_blocked
    dsimp only [blockForChild,asleep,Kernel.setUserContext]
    rw [Function.update_idem]
  | delay h ht =>
    rw [h.call]
    refine sleeping_op hc (.blockDelay (u.int 0) _ u rfl (hmay h.notIdle) ht (int_lt u 0))
      (sysDelay_blocks (hchecks h.notIdle) ht) ?_ asleep_blocked
    dsimp only [blockForDelay,asleep,Kernel.setUserContext]
    rw [Function.update_idem]
    rfl
  | ttyRead h ht hb hl hn hq =>
    have hline : ((s.setUserContext s.currentProcess u).tty s.currentProcess).readLine=none :=
      no_line (s := s.setUserContext s.currentProcess u) hc ha'
    have hreq : Calm M (fun _ => True) _ _ := .single (.readRequest (s := s.setUserContext
      s.currentProcess u) (u.int 0).toNat (u.ptr 1) (u.int 2).toNat)
    obtain ⟨hrc,hra⟩ := calm_keeps hc ha' hreq
    rw [h.call]
    refine sleeping_op hrc (.blockRead (u.int 0).toNat _ u rfl ⟨hra,h.notIdle⟩
      (ttyValid_lt (by rw [ht]; decide)) ?_ hn hq)
      (sysTtyRead_blocks (hchecks h.notIdle) ht hb hl hline ⟨hn,hq⟩) ?_ lined_blocked
    · dsimp only [Kernel.setTty]
      rw [Function.update_self]
      exact hline
    · exact reading_saved ..
  | ttyWrite h ht hb hl hm hw hf =>
    rw [h.call]
    exact sleeping_op hc (.startWrite env (u.int 0).toNat (u.ptr 1) (u.int 2) _ u rfl
      (hmay h.notIdle) (ttyValid_lt (by rw [ht]; decide)) hl hw hf)
      (sysTtyWrite_starts (hchecks h.notIdle) ht hb hl hm ⟨hw,hf⟩)
      (startWrite_asleep ..) asleep_blocked
  | ttyQueue h ht hb hl hm hw =>
    rw [h.call]
    refine sleeping_op hc (.queueWrite env (u.int 0).toNat (u.ptr 1) (u.int 2) _ u rfl
      (hmay h.notIdle) (ttyValid_lt (by rw [ht]; decide)) hl hw)
      (sysTtyWrite_queues (hchecks h.notIdle) ht hb hl hm hw) ?_ lined_blocked
    rw [prepareWrite_asleep]
    rfl
  | pipeRead h hb hl ho he =>
    have ho : getObject (s.setUserContext s.currentProcess u) (u.int 0)=_ := ho
    rw [h.call]
    refine sleeping_op hc (.blockPipe _ _ _ _ _ u rfl (hmay h.notIdle) hl ho he)
      ((sysPipeRead_blocks (hchecks h.notIdle) hb hl).trans (pipeReadLoop_blocks ho he _ _)) ?_
      lined_blocked
    exact blockCurrent_saved _
  | acquire h ho hown hn =>
    have ho : getObject (s.setUserContext s.currentProcess u) (u.int 0)=_ := ho
    rw [h.call]
    refine sleeping_op hc (.blockLock _ _ _ u rfl (hmay h.notIdle) ho hown hn)
      (lockAcquire_blocks (hchecks h.notIdle) ho hown hn) ?_ lined_blocked
    unfold blockOnLock
    rw [blockCurrent_saved]
    rfl
  | cvarWait h ho hl hn =>
    have ho : getObject (s.setUserContext s.currentProcess u) (u.int 0)=_ := ho
    have hl : getObject (s.setUserContext s.currentProcess u) (u.int 1)=_ := hl
    have hobj := objects_of_getObject hl (by simp)
    rw [h.call]
    obtain ⟨hrc,hop⟩ := cvarWait_op (k := ⟨s.currentProcess,_⟩) (u := u) hc ha' ho hl hn rfl
    obtain ⟨log,hrel⟩ := lockRelease_exact hc hobj hn
    refine sleeping_op hrc hop (sysCvarWait_blocks ho hl hn) ?_ lined_blocked
    rw [hrel,blockOnCvar_passed]

/-- A kernel stack has been taken up before its process sleeps again. -/
theorem blockCurrent_started (q : QueueAddr) : blockCurrent q k u (started s)=
    lined q (asleep k u s) := by
  dsimp only [blockCurrent,lined,asleep,started,Kernel.setKernelContext]
  rw [Function.update_idem]

/-- A call that was woken and has to wait again puts its process to sleep. -/
theorem sleeps_resume (hset : Settled M s) (hr : Runnable s) (h : Sleeps M env s .resume x) :
    Sleeping M env x (stepFlow M env s .resume) := by
  have hpoint := hset.saved.point _ hset.ready.current_live
  have hidle : (s.kernelContext s.currentProcess).point≠.executing →
      (s.kernelContext s.currentProcess).point≠.boot →
      (s.kernelContext s.currentProcess).point≠.clock → s.currentProcess≠s.idleProcess := by
    intro h₁ h₂ h₃ hi
    rw [hi] at h₁ h₂ h₃
    rcases hset.saved.idle with h|h|h
    · exact h₁ h
    · exact h₂ h
    · exact h₃ h
  have hbegin : (∀ id g,(s.kernelContext s.currentProcess).point≠.acquire id g) →
      (∀ i,(s.kernelContext s.currentProcess).point≠.ttyRead i) → Coherent M (started s) := by
    intro hl hn
    have hop : Op M (fun _ => True) true s (started s) :=
      .begin hr hl (no_handed hset.toCoherent hn)
    exact op_coherent hset.toCoherent hop
  dsimp only [stepFlow]
  unfold resumeFlow
  cases h with
  | @emptied id buf len g pipe hk ho he =>
    have hc := hbegin (by simp [hk]) (by simp [hk])
    have hmb : MayBlock (started s) :=
      ⟨taken_active hr,hidle (by simp [hk]) (by simp [hk]) (by simp [hk])⟩
    have ho' : getObject (started s) id=.pipe pipe := ho
    rw [hk] at hpoint ⊢
    exact sleeping_op hc (.blockPipe id buf len pipe
      ⟨(s.kernelContext s.currentProcess).caller,_⟩ (savedContext (started s)) rfl hmb hpoint ho'
        he)
      (pipeReadLoop_blocks ho' he buf len) (blockCurrent_started _) lined_blocked
  | @relocked id lockId g g' cvar l hk ho hl h0 hn =>
    have hc := hbegin (by simp [hk]) (by simp [hk])
    have hi := hidle (by simp [hk]) (by simp [hk]) (by simp [hk])
    have hmb : MayBlock (started s) := ⟨taken_active hr,hi⟩
    have ho' : getObject (started s) id=.cvar cvar := ho
    have hl' : getObject (started s) lockId=.lock l := hl
    have hchecks : ¬((started s).currentProcess=0 ∨
        (started s).currentProcess=(started s).idleProcess) :=
      not_or.2 ⟨hset.ready.ne_null hset.ready.current_live,hi⟩
    rw [hk]
    refine sleeping_op hc (.blockLock lockId l ⟨(s.kernelContext s.currentProcess).caller,_⟩
      (savedContext (started s)) rfl hmb hl' h0 hn)
      ((cvarWaitResume_locks ho').trans (lockAcquire_blocks hchecks hl' h0 hn)) ?_ lined_blocked
    unfold blockOnLock
    rw [blockCurrent_started]
    rfl

/-- Calls that wait in some states. -/
def MayWait (call : Syscall) : Prop :=
  call=.wait ∨ call=.delay ∨ call=.ttyRead ∨ call=.ttyWrite ∨ call=.pipeRead ∨ call=.acquire ∨
    call=.cvarWait

/-- All calls that neither wait nor stop the machine return at once. -/
theorem callFlow_returns (hm : ¬MayStop (M.syscallOf u.code)) (hw : ¬MayWait (M.syscallOf u.code)) :
    callFlow M env caller u s≠.leaves t := by
  intro h
  unfold callFlow at h
  cases hc : M.syscallOf u.code with
  | getPid =>
    rw [hc] at h
    dsimp only at h
    unfold sysGetPid at h
    split at h
    · cases h
    · cases h
  | brk =>
    rw [hc] at h
    dsimp only at h
    unfold sysBrk at h
    split at h
    · cases h
    · cases h
  | pipeInit =>
    rw [hc] at h
    dsimp only at h
    unfold sysPipeInit at h
    split at h
    · cases h
    · split at h
      · cases h
      · split at h
        · cases h
        · cases h
  | lockInit =>
    rw [hc] at h
    dsimp only at h
    unfold sysLockInit at h
    split at h
    · cases h
    · split at h
      · cases h
      · cases h
  | release =>
    rw [hc] at h
    dsimp only at h
    unfold sysRelease at h
    split at h
    · split at h
      · cases h
      · cases h
    · cases h
  | cvarInit =>
    rw [hc] at h
    dsimp only at h
    unfold sysCvarInit at h
    split at h
    · cases h
    · split at h
      · cases h
      · cases h
  | cvarSignal =>
    rw [hc] at h
    dsimp only at h
    unfold sysCvarSignal at h
    split at h
    · cases h
    · cases h
  | cvarBroadcast =>
    rw [hc] at h
    dsimp only at h
    unfold sysCvarBroadcast at h
    split at h
    · cases h
    · cases h
  | reclaim =>
    rw [hc] at h
    dsimp only at h
    unfold sysReclaim at h
    split at h
    · cases h
    · cases h
  | unsupported =>
    rw [hc] at h
    cases h
  | _ => simp [hc,MayStop,MayWait] at hm hw

/-- A call other than Fork, Exec, Exit and PipeWrite that does not return puts its
process to sleep. -/
theorem callFlow_leaves (hset : Coherent M s) (hv : u.vector=.kernel)
    (hm : ¬MayStop (M.syscallOf u.code)) (h : stepFlow M env s (.trap u)=.leaves t) :
    ∃ x,Sleeps M env s (.trap u) x := by
  have h0 := hset.ready.ne_null hset.ready.current_live
  dsimp only [stepFlow] at h
  rw [saveContext_current u h0] at h
  have hw : MayWait (M.syscallOf u.code) := Classical.not_not.1 (fun hw => callFlow_returns hm hw h)
  unfold callFlow at h
  rcases hw with hc|hc|hc|hc|hc|hc|hc
  · rw [hc] at h
    obtain ⟨hi,hch,hz⟩ := sysWait_leaves h
    exact ⟨_,.wait ⟨hv,hc,hi⟩ hch hz⟩
  · rw [hc] at h
    obtain ⟨hi,hn⟩ := sysDelay_leaves h
    exact ⟨_,.delay ⟨hv,hc,hi⟩ hn⟩
  · rw [hc] at h
    obtain ⟨hi,ht,hb,hl,hn,hq⟩ := sysTtyRead_leaves h
    exact ⟨_,.ttyRead ⟨hv,hc,hi⟩ ht hb hl hn hq⟩
  · rw [hc] at h
    obtain ⟨hi,ht,hb,hl,hm⟩ := sysTtyWrite_leaves h
    by_cases hw : (s.terminals (u.int 0).toNat).writer=0 ∧
        (s.terminals (u.int 0).toNat).busy=false
    · exact ⟨_,.ttyWrite ⟨hv,hc,hi⟩ ht hb hl hm hw.1 hw.2⟩
    · exact ⟨_,.ttyQueue ⟨hv,hc,hi⟩ ht hb hl hm hw⟩
  · rw [hc] at h
    obtain ⟨hi,hb,hl,pipe,ho,he⟩ := sysPipeRead_leaves h
    exact ⟨_,.pipeRead ⟨hv,hc,hi⟩ hb hl ho he⟩
  · rw [hc] at h
    obtain ⟨hi,l,ho,hown,hn⟩ := lockAcquire_leaves h
    exact ⟨_,.acquire ⟨hv,hc,hi⟩ ho hown hn⟩
  · rw [hc] at h
    obtain ⟨cvar,l,ho,hl,hn⟩ := sysCvarWait_leaves h
    have hlobj : s.objects (u.int 1).toNat=.lock l := objects_of_getObject hl (by simp)
    have hown := hset.owner.owner _ l hlobj (by rw [hn]; exact h0)
    have hi : s.currentProcess≠s.idleProcess := by
      change l.owner=s.currentProcess at hn
      rw [←hn]
      exact hown.2.1
    exact ⟨_,.cvarWait ⟨hv,hc,hi⟩ ho hl hn⟩

end Entries

section Runs

/-- The entries behind which the scheduler has picked a process. -/
inductive Passes (M : Machine) (env : Env) (s : Kernel) : Input → Prop
  /-- A clock trap passes the processor on. -/
  | clock {u : UserContext} (hv : u.vector=.clock) : Passes M env s (.trap u)
  /-- The end of a process other than idle and init. -/
  | ends {u : UserContext} (h : Fatal M env s u) (hi : s.currentProcess≠s.idleProcess)
      (hn : s.currentProcess≠s.initProcess) : Passes M env s (.trap u)
  /-- A call that has to wait. -/
  | sleeps {input : Input} {x : Kernel} (h : Sleeps M env s input x) : Passes M env s input

/-- A call that returns goes back to user mode. -/
theorem returns_user {f : Flow} (h : ∃ t v rc,f=.returns t v rc) :
    (finish caller f).cpu≠.kernel := by
  obtain ⟨t,v,rc,rfl⟩ := h
  obtain ⟨c,w,he⟩ := finish_returns (s := t) caller v rc
  rw [he]
  simp

/-- Fork never gives up the processor. -/
theorem sysFork_keeps :
    (finish caller (sysFork M env caller u s)).cpu≠.kernel := by
  unfold sysFork
  split
  · exact returns_user ⟨_,_,_,rfl⟩
  · split
    · simp [finish,Kernel.kernelPanic]
    · split
      · exact returns_user ⟨_,_,_,rfl⟩
      · split
        · unfold sysForkReturn
          split
          · exact returns_user ⟨_,_,_,rfl⟩
          · exact returns_user ⟨_,_,_,rfl⟩
        · exact returns_user ⟨_,_,_,rfl⟩

/-- PipeWrite never gives up the processor. -/
theorem sysPipeWrite_keeps {id : ℤ} {buf : ℕ} {len : ℤ} :
    (finish caller (sysPipeWrite env id buf len u s)).cpu≠.kernel := by
  unfold sysPipeWrite
  split
  · exact returns_user ⟨_,_,_,rfl⟩
  · split
    · exact returns_user ⟨_,_,_,rfl⟩
    · split
      · split
        · exact returns_user ⟨_,_,_,rfl⟩
        · simp [finish]
        · exact returns_user ⟨_,_,_,rfl⟩
      · exact returns_user ⟨_,_,_,rfl⟩

/-- The processor behind a fatal trap. -/
theorem fatal_cpu (hs : env.switchOk=true) (h0 : s.currentProcess≠0) (hf : Fatal M env s u) :
    (kernelStep M env s (.trap u)).cpu=
      if s.currentProcess=s.idleProcess then .aborted "idle process exit"
      else if s.currentProcess=s.initProcess then .halted else .kernel := by
  obtain ⟨w,he,hw⟩ := fatal_exit h0 hf
  obtain ⟨hcur,hidle,hinit⟩ := hw.actors
  dsimp only [kernelStep]
  rw [he,exit_cpu _ hs (by rwa [hcur]),hcur,hidle,hinit]

/-- A fatal trap behind which the scheduler has run. -/
theorem fatal_passes (hs : env.switchOk=true) (h0 : s.currentProcess≠0) (hf : Fatal M env s u)
    (hk : (kernelStep M env s (.trap u)).cpu=.kernel) : Passes M env s (.trap u) := by
  rw [fatal_cpu hs h0 hf] at hk
  split at hk
  · cases hk
  · rename_i hi
    split at hk
    · cases hk
    · rename_i hn
      exact .ends hf hi hn

/-- The step of an Exec. -/
theorem exec_step (h0 : s.currentProcess≠0) (hv : u.vector=.kernel)
    (hx : M.syscallOf u.code=.exec) : kernelStep M env s (.trap u)=finishExec s.currentProcess
      (sysExec M env (u.ptr 0) (u.ptr 1) u (s.setUserContext s.currentProcess u)) := by
  dsimp only [kernelStep,trap]
  rw [hv]
  dsimp only [trapKernel]
  rw [saveContext_current u h0]
  unfold syscallDispatch
  rw [hx]

/-- A system call behind which the scheduler has run. -/
theorem call_passes (hs : env.switchOk=true) (hc : Coherent M s) (hv : u.vector=.kernel)
    (hk : (kernelStep M env s (.trap u)).cpu=.kernel) : Passes M env s (.trap u) := by
  have h0 := hc.ready.ne_null hc.ready.current_live
  by_cases hx : M.syscallOf u.code=.exec
  · rcases @sysExec_ends (s.setUserContext s.currentProcess u) M env u h0 (u.ptr 0) (u.ptr 1) with
      ⟨hkill,_⟩|⟨_,_,t,he,hcpu⟩|⟨_,_,t,w,rc,he⟩
    · exact fatal_passes hs h0 (.inr (.inr (.inr ⟨hv,.inr ⟨hx,hkill⟩⟩))) hk
    · rw [exec_step h0 hv hx,he] at hk
      dsimp only [finishExec] at hk
      rw [hcpu] at hk
      cases hk
    · rw [exec_step h0 hv hx,he] at hk
      dsimp only [finishExec] at hk
      split at hk
      · rw [trapKernelReturn_cpu] at hk
        cases hk
      · rw [trapKernelReturn_cpu] at hk
        cases hk
  · by_cases hm : MayStop (M.syscallOf u.code)
    · rcases hm with hm|hm|hm|hm
      · rw [trap_step env hv hx] at hk
        dsimp only [stepFlow,callFlow] at hk
        rw [hm,saveContext_current u h0] at hk
        exact absurd hk sysFork_keeps
      · exact absurd hm hx
      · exact fatal_passes hs h0 (.inr (.inr (.inr ⟨hv,.inl hm⟩))) hk
      · rw [trap_step env hv hx] at hk
        dsimp only [stepFlow,callFlow] at hk
        rw [hm] at hk
        exact absurd hk sysPipeWrite_keeps
    · rw [trap_step env hv hx] at hk
      cases hf : stepFlow M env s (.trap u) with
      | returns t v rc =>
        rw [hf] at hk
        exact absurd hk (returns_user ⟨_,_,_,rfl⟩)
      | leaves t =>
        obtain ⟨x,hx⟩ := callFlow_leaves hc hv hm hf
        exact .sleeps hx

/-- A trap behind which the scheduler has run. -/
theorem trap_passes (hs : env.switchOk=true) (hc : Coherent M s)
    (hk : (kernelStep M env s (.trap u)).cpu=.kernel) : Passes M env s (.trap u) := by
  have h0 := hc.ready.ne_null hc.ready.current_live
  cases hv : u.vector with
  | clock => exact .clock hv
  | kernel => exact call_passes hs hc hv hk
  | illegal => exact fatal_passes hs h0 (.inl hv) hk
  | math => exact fatal_passes hs h0 (.inr (.inl hv)) hk
  | memory =>
    cases hg : (growStack M s.memory (s.space s.currentProcess) u.addr).2.2 with
    | false => exact fatal_passes hs h0 (.inr (.inr (.inl ⟨hv,hg⟩))) hk
    | true =>
      dsimp only [kernelStep,trap] at hk
      rw [hv] at hk
      dsimp only [trapMemory] at hk
      rw [if_pos hg] at hk
      cases hk
  | ttyReceive =>
    dsimp only [kernelStep,trap] at hk
    rw [hv] at hk
    cases hk
  | ttyTransmit =>
    dsimp only [kernelStep,trap] at hk
    rw [hv] at hk
    cases hk
  | disk =>
    dsimp only [kernelStep,trap] at hk
    rw [hv] at hk
    cases hk
  | other =>
    dsimp only [kernelStep,trap] at hk
    rw [hv] at hk
    cases hk

/-- A woken call behind which the scheduler has run again. -/
theorem resume_passes (h : Reachable M s) (hu : s.cpu=.kernel)
    (hk : (kernelStep M env s .resume).cpu=.kernel) : Passes M env s .resume := by
  by_cases hn : (s.kernelContext s.currentProcess).point=.boot ∨
      (s.kernelContext s.currentProcess).point=.clock
  · rw [(resume_user M env hn).1] at hk
    cases hk
  · rw [resume_step] at hk
    by_cases hp : Contended (s.kernelContext s.currentProcess).point
    · cases hf : stepFlow M env s .resume with
      | returns t v rc =>
        rw [hf] at hk
        exact absurd hk (returns_user ⟨_,_,_,rfl⟩)
      | leaves t =>
        dsimp only [stepFlow] at hf
        unfold resumeFlow at hf
        cases hx : (s.kernelContext s.currentProcess).point with
        | pipeRead id buf len g =>
          rw [hx] at hf
          obtain ⟨pipe,ho,he⟩ := pipeReadLoop_leaves hf
          exact .sleeps (.emptied hx ho he)
        | cvarWait id lockId g g' =>
          rw [hx] at hf
          obtain ⟨⟨cvar,ho⟩,hl⟩ := cvarWaitResume_leaves hf
          obtain ⟨_,l,hlock,h0,hn⟩ := lockAcquire_leaves hl
          exact .sleeps (.relocked hx ho hlock h0 hn)
        | _ =>
          rw [hx] at hp
          exact absurd hp id
    · obtain ⟨v,w,rc,hflow,_⟩ := resumed_returns env h hu hp hn
      exact absurd hk (returns_user ⟨v,w,rc,hflow⟩)

/-- In every run the scheduler picks a process in clock traps, at the end of a
process and when a call has to wait, and nowhere else. A process that has to wait
is left blocked as said, whoever's delay is over stands in line behind those who
do, and the first of them goes on. -/
theorem hands_over (h : Reachable M s) (he : input.Enabled s) (hs : env.switchOk=true) :
    ((kernelStep M env s input).cpu=.kernel ↔ Passes M env s input) ∧
      ∀ x,Sleeps M env s input x →
        ∃ log,kernelStep M env s input={scheduled M x with log := log} := by
  have hset := reachable_settled h
  have h0 := hset.ready.ne_null hset.ready.current_live
  have hsleep : ∀ x,Sleeps M env s input x →
      ∃ log,kernelStep M env s input={scheduled M x with log := log} := by
    intro x hx
    cases input with
    | trap u =>
      obtain ⟨log,hf⟩ := (sleeps_trap hset (hset.user he) hx).scheduled hs
      obtain ⟨hv,hx⟩ := hx.entry
      rw [trap_step env hv hx,hf]
      exact ⟨log,rfl⟩
    | resume =>
      obtain ⟨log,hf⟩ := (sleeps_resume hset (hset.kernel he).1 hx).scheduled hs
      rw [resume_step,hf]
      exact ⟨log,rfl⟩
  refine ⟨⟨fun hk => ?_,fun hp => ?_⟩,hsleep⟩
  · cases input with
    | trap u => exact trap_passes hs hset.toCoherent hk
    | resume => exact resume_passes h he hk
  · cases hp with
    | clock hv =>
      dsimp only [kernelStep,trap]
      rw [hv]
      rfl
    | ends hf hi hn => rw [fatal_cpu hs h0 hf,if_neg hi,if_neg hn]
    | sleeps hx =>
      obtain ⟨log,hstep⟩ := hsleep _ hx
      rw [hstep]
      rfl

/-- Whether the object is a pipe that holds no bytes. -/
def emptyPipe : IpcObject → Bool
  | .pipe pipe => decide (pipe.len=0)
  | _ => false

/-- Init reads from an empty pipe, and its child goes on. -/
theorem hands_over_pipe : ∃ s,Reachable sampleMachine s ∧
    (kernelStep sampleMachine (sampleEnv 0 0) s (callInput 11 0 0x105000 4).2).cpu=.kernel ∧
    (kernelStep sampleMachine (sampleEnv 0 0) s (callInput 11 0 0x105000 4).2).currentProcess=3 ∧
    (kernelStep sampleMachine (sampleEnv 0 0) s (callInput 11 0 0x105000 4).2).queue (.readers 0)=
      [2] := by
  obtain ⟨s,hr,hq⟩ := replay_reachable sampleBoot_user
    [forkInput 3 2,callInput 10 0x105000 0 0]
    (fun s => s.cpu=.user ∧ s.currentProcess=2 ∧ s.idleProcess=1 ∧ s.readyQueue=[3] ∧
      s.queue (.readers 0)=[] ∧ emptyPipe (s.objects 0)=true) (by decide +kernel)
  simp only [decide_eq_true_eq] at hq
  obtain ⟨hu,hcur,hidle,hready,hqueue,hpipe⟩ := hq
  cases ho : s.objects 0 with
  | pipe pipe =>
    rw [ho] at hpipe
    have hobj : getObject s 0=.pipe pipe := ho
    have hasks : Asks sampleMachine s (sampleContext .kernel 11 0 0x105000 4) .pipeRead :=
      ⟨rfl,rfl,by rw [hcur,hidle]; decide⟩
    obtain ⟨hiff,hexact⟩ :=
      @hands_over _ (sampleEnv 0 0) s (callInput 11 0 0x105000 4).2 hr hu rfl
    have hsleep : Sleeps sampleMachine (sampleEnv 0 0) s (callInput 11 0 0x105000 4).2 _ :=
      .pipeRead hasks (by decide) (by decide) hobj (of_decide_eq_true hpipe)
    obtain ⟨log,hstep⟩ := hexact _ hsleep
    refine ⟨s,hr,hiff.2 (.sleeps hsleep),?_,?_⟩
    · rw [hstep]
      dsimp only [scheduled,pick,lineUp,lined,asleep]
      rw [hready]
      rfl
    · rw [hstep]
      dsimp only [scheduled,lined,asleep]
      change Function.update s.queue (.readers 0) (s.queue (.readers 0)++[s.currentProcess])
        (.readers 0)=_
      rw [Function.update_self,hqueue,hcur]
      rfl
  | _ =>
    rw [ho] at hpipe
    cases hpipe

end Runs

end Yalnix.HandOvers

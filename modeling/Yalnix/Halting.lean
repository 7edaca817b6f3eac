import Yalnix.PipeBuffers
import Yalnix.KernelEntries
import Yalnix.Continuations
import Yalnix.UserPointers

/-!
# When the machine stops

A kernel entry goes back to user mode or to a saved kernel stack, except in
five cases: the initial process ends, idle ends, a fork finds no memory for a
page table, a write asks for a pipe of a size that doubling never reaches, or
an Exec zeroes data or stores arguments in pages that are not mapped for
stores. The context switch succeeds, so that the abort behind ProcessSchedule
in ProcessExitCurrent is none of them, and the buffers of the call lie in
pages of its process, so that its own loads and stores are none of them.
-/

namespace Yalnix.Halting

open Framework FrameTable KernelState Scheduling Ipc Terminals ProcessLifetime ProgramLoading
open Syscalls Traps KernelStart Coherence Operations OperationCoherence StepOperations
open CallOperations RunInvariants Traces KernelEntries ProcessIsolation PipeBuffers Continuations
open UserContexts UserPointers

variable {M : Machine} {env : Env} {s t : Kernel} {p caller : PcbPtr} {u : UserContext} {f : Flow}
  {c : Cpu}

section Flows

/-- The kernel goes on, in user mode or on a saved kernel stack. -/
def GoesOn (t : Kernel) : Prop := t.cpu=.user ∨ t.cpu=.kernel

/-- A call that leaves the processor has scheduled. -/
def Schedules (f : Flow) : Prop := ∀ t,f=.leaves t → t.cpu=.kernel

/-- A call that returns does not leave the processor. -/
theorem schedules_returns {rc : ℤ} : Schedules (.returns t u rc) := by
  intro w hw
  cases hw

/-- A call that has scheduled. -/
theorem schedules_leaves (h : t.cpu=.kernel) : Schedules (.leaves t) := by
  intro w hw
  injection hw with hw
  rwa [←hw]

/-- Calls come back to user mode, or to the kernel stack of the next process. -/
theorem Schedules.finish (h : Schedules f) : GoesOn (finish caller f) := by
  cases f with
  | returns t u rc =>
    obtain ⟨c,v,he⟩ := finish_returns (s := t) caller u rc
    rw [he]
    exact .inl rfl
  | leaves t => exact .inr (h t rfl)

/-- The loop of Wait leaves the processor only through the scheduler. -/
theorem waitLoop_schedules (a : ℕ) : Schedules (waitLoop M env p a u s) := by
  unfold waitLoop
  split
  · exact schedules_returns
  · split
    · exact schedules_returns
    · exact schedules_leaves rfl

/-- The loop of TtyRead leaves the processor only through the scheduler. -/
theorem ttyReadLoop_schedules (i : ℕ) : Schedules (ttyReadLoop M env p i u s) := by
  unfold ttyReadLoop
  split
  · exact schedules_returns
  · split
    · exact schedules_returns
    · exact schedules_leaves rfl

/-- The loop of PipeRead leaves the processor only through the scheduler. -/
theorem pipeReadLoop_schedules (id : ℤ) (a : ℕ) (len : ℤ) :
    Schedules (pipeReadLoop M env p id a len u s) := by
  unfold pipeReadLoop
  split
  · split
    · exact schedules_leaves rfl
    · exact schedules_returns
  · exact schedules_returns

/-- The loop of LockAcquire leaves the processor only through the scheduler. -/
theorem lockAcquireLoop_schedules (id : ℤ) (l : LockState) :
    Schedules (lockAcquireLoop M env p id l u s) := by
  unfold lockAcquireLoop
  split
  · exact schedules_leaves rfl
  · exact schedules_returns

/-- LockAcquire leaves the processor only through the scheduler. -/
theorem lockAcquire_schedules (id : ℤ) : Schedules (lockAcquire M env p id u s) := by
  unfold lockAcquire
  split
  · split
    · exact schedules_returns
    · split
      · exact schedules_returns
      · exact lockAcquireLoop_schedules _ _
  · exact schedules_returns

/-- SysFork returns in the parent and in the child. -/
theorem sysForkReturn_schedules (child : PcbPtr) : Schedules (sysForkReturn child u s) := by
  unfold sysForkReturn
  split
  · exact schedules_returns
  · exact schedules_returns

/-- SysCvarWait that goes on leaves the processor only through the scheduler. -/
theorem cvarWaitResume_schedules (id lockId : ℤ) :
    Schedules (cvarWaitResume M env p id lockId u s) := by
  unfold cvarWaitResume
  split
  · exact lockAcquire_schedules _
  · exact schedules_returns

/-- LockAcquire that goes on leaves the processor only through the scheduler. -/
theorem lockAcquireResume_schedules (id : ℤ) : Schedules (lockAcquireResume M env p id u s) := by
  unfold lockAcquireResume
  split
  · split
    · exact schedules_returns
    · exact lockAcquireLoop_schedules _ _
  · exact schedules_returns

/-- A call that blocks has a place to go on. -/
theorem resumeFlow_schedules {k : KernelContext} (hx : k.point≠.executing) (hz : k.point≠.exited)
    (hb : k.point≠.boot) (hc : k.point≠.clock) : Schedules (resumeFlow M env k s) := by
  unfold resumeFlow
  split
  · exact sysForkReturn_schedules _
  · exact waitLoop_schedules _
  · exact schedules_returns
  · exact ttyReadLoop_schedules _
  · exact schedules_returns
  · exact pipeReadLoop_schedules _ _ _
  · exact lockAcquireResume_schedules _
  · exact cvarWaitResume_schedules _ _
  · rename_i hk
    exact absurd hk hx
  · rename_i hk
    exact absurd hk hb
  · rename_i hk
    exact absurd hk hc
  · rename_i hk
    exact absurd hk hz

/-- Calls that stop the machine in some states. -/
def MayStop (call : Syscall) : Prop :=
  call=.fork ∨ call=.exec ∨ call=.exit ∨ call=.pipeWrite

/-- GetPid returns at once. -/
theorem sysGetPid_schedules : Schedules (sysGetPid u s) := by
  unfold sysGetPid
  split
  · exact schedules_returns
  · exact schedules_returns

/-- Wait refuses idle and enters its loop for everybody else. -/
theorem sysWait_schedules (a : ℕ) : Schedules (sysWait M env p a u s) := by
  unfold sysWait
  split
  · exact schedules_returns
  · exact waitLoop_schedules _

/-- Brk returns at once. -/
theorem sysBrk_schedules (addr : ℕ) : Schedules (sysBrk M addr u s) := by
  unfold sysBrk
  split
  · exact schedules_returns
  · exact schedules_returns

/-- Delay returns or gives the processor to the scheduler. -/
theorem sysDelay_schedules (ticks : ℤ) : Schedules (sysDelay M env p ticks u s) := by
  unfold sysDelay
  split
  · exact schedules_returns
  · split
    · exact schedules_returns
    · split
      · exact schedules_returns
      · exact schedules_leaves rfl

/-- TtyRead checks its arguments and enters its loop. -/
theorem sysTtyRead_schedules (id : ℤ) (buf : ℕ) (len : ℤ) :
    Schedules (sysTtyRead M env p id buf len u s) := by
  unfold sysTtyRead
  split
  · exact schedules_returns
  · split
    · exact schedules_returns
    · split
      · exact schedules_returns
      · exact ttyReadLoop_schedules _

/-- TtyWrite checks its arguments and waits for the terminal. -/
theorem sysTtyWrite_schedules (id : ℤ) (buf : ℕ) (len : ℤ) :
    Schedules (sysTtyWrite M env p id buf len u s) := by
  unfold sysTtyWrite
  split
  · exact schedules_returns
  · split
    · exact schedules_returns
    · split
      · exact schedules_returns
      · split
        · exact schedules_returns
        · split
          · exact schedules_leaves rfl
          · exact schedules_leaves rfl

/-- PipeInit returns at once. -/
theorem sysPipeInit_schedules (a : ℕ) : Schedules (sysPipeInit M env a u s) := by
  unfold sysPipeInit
  split
  · exact schedules_returns
  · split
    · exact schedules_returns
    · split
      · exact schedules_returns
      · exact schedules_returns

/-- PipeRead checks its arguments and enters its loop. -/
theorem sysPipeRead_schedules (id : ℤ) (buf : ℕ) (len : ℤ) :
    Schedules (sysPipeRead M env p id buf len u s) := by
  unfold sysPipeRead
  split
  · exact schedules_returns
  · split
    · exact schedules_returns
    · split
      · exact schedules_returns
      · exact pipeReadLoop_schedules _ _ _

/-- LockInit returns at once. -/
theorem sysLockInit_schedules (a : ℕ) : Schedules (sysLockInit a u s) := by
  unfold sysLockInit
  split
  · exact schedules_returns
  · split
    · exact schedules_returns
    · exact schedules_returns

/-- Release returns at once. -/
theorem sysRelease_schedules (id : ℤ) : Schedules (sysRelease id u s) := by
  unfold sysRelease
  split
  · split
    · exact schedules_returns
    · exact schedules_returns
  · exact schedules_returns

/-- CvarInit returns at once. -/
theorem sysCvarInit_schedules (a : ℕ) : Schedules (sysCvarInit a u s) := by
  unfold sysCvarInit
  split
  · exact schedules_returns
  · split
    · exact schedules_returns
    · exact schedules_returns

/-- CvarSignal returns at once. -/
theorem sysCvarSignal_schedules (id : ℤ) : Schedules (sysCvarSignal id u s) := by
  unfold sysCvarSignal
  split
  · exact schedules_returns
  · exact schedules_returns

/-- CvarBroadcast returns at once. -/
theorem sysCvarBroadcast_schedules (id : ℤ) : Schedules (sysCvarBroadcast id u s) := by
  unfold sysCvarBroadcast
  split
  · exact schedules_returns
  · exact schedules_returns

/-- CvarWait returns an error or gives the processor to the scheduler. -/
theorem sysCvarWait_schedules (id lockId : ℤ) :
    Schedules (sysCvarWait M env p id lockId u s) := by
  unfold sysCvarWait
  split
  · split
    · exact schedules_returns
    · exact schedules_leaves rfl
  · exact schedules_returns

/-- Reclaim returns at once. -/
theorem sysReclaim_schedules (id : ℤ) : Schedules (sysReclaim id u s) := by
  unfold sysReclaim
  split
  · exact schedules_returns
  · exact schedules_returns

/-- Any other call either returns or leaves the processor to the scheduler. -/
theorem callFlow_schedules (h : ¬MayStop (M.syscallOf u.code)) :
    Schedules (callFlow M env p u s) := by
  unfold MayStop at h
  unfold callFlow
  cases hc : M.syscallOf u.code with
  | fork => exact absurd (.inl hc) h
  | exec => exact absurd (.inr (.inl hc)) h
  | exit => exact absurd (.inr (.inr (.inl hc))) h
  | pipeWrite => exact absurd (.inr (.inr (.inr hc))) h
  | wait => exact sysWait_schedules _
  | getPid => exact sysGetPid_schedules
  | brk => exact sysBrk_schedules _
  | delay => exact sysDelay_schedules _
  | ttyRead => exact sysTtyRead_schedules _ _ _
  | ttyWrite => exact sysTtyWrite_schedules _ _ _
  | pipeInit => exact sysPipeInit_schedules _
  | pipeRead => exact sysPipeRead_schedules _ _ _
  | lockInit => exact sysLockInit_schedules _
  | acquire => exact lockAcquire_schedules _
  | release => exact sysRelease_schedules _
  | cvarInit => exact sysCvarInit_schedules _
  | cvarSignal => exact sysCvarSignal_schedules _
  | cvarBroadcast => exact sysCvarBroadcast_schedules _
  | cvarWait => exact sysCvarWait_schedules _ _
  | reclaim => exact sysReclaim_schedules _
  | unsupported => exact schedules_returns

end Flows

section Stops

/-- The trap ends the process that takes it: an exception, a fault that the
stack cannot grow to, Exit, or an Exec that fails behind the tear-down. -/
def Fatal (M : Machine) (env : Env) (s : Kernel) (u : UserContext) : Prop :=
  u.vector=.illegal ∨ u.vector=.math ∨
    (u.vector=.memory ∧ (growStack M s.memory (s.space s.currentProcess) u.addr).2.2=false) ∨
    (u.vector=.kernel ∧ (M.syscallOf u.code=.exit ∨ (M.syscallOf u.code=.exec ∧
      s.currentProcess≠s.idleProcess ∧ ExecKills M env (u.ptr 0) (u.ptr 1) s)))

/-- The steps that stop the machine, with the way in which it stops. -/
inductive Stops (M : Machine) (env : Env) (s : Kernel) : Input → Cpu → Prop
  /-- The initial process ends. -/
  | init (u : UserContext) (h : Fatal M env s u) (hi : s.currentProcess≠s.idleProcess)
      (hc : s.currentProcess=s.initProcess) : Stops M env s (.trap u) .halted
  /-- A fatal trap of the idle process aborts the kernel. -/
  | idle (u : UserContext) (h : Fatal M env s u) (hi : s.currentProcess=s.idleProcess) :
      Stops M env s (.trap u) (.aborted "idle process exit")
  /-- A fork gets no page table. -/
  | table (u : UserContext) (hv : u.vector=.kernel) (hc : M.syscallOf u.code=.fork)
      (hi : s.currentProcess≠s.idleProcess) (hp : pageTableFails env s=true) :
      Stops M env s (.trap u) (.aborted "calloc page table failed")
  /-- A write needs a pipe that doubling never reaches. -/
  | pipe (u : UserContext) (pipe : PipeState) (hv : u.vector=.kernel)
      (hc : M.syscallOf u.code=.pipeWrite) (ho : getObject s (u.int 0)=.pipe pipe)
      (hl : 0<u.int 2) (hb : u.ptr 1≠0) (hd : ¬Doubles M (wrap32 (pipe.len+u.int 2))) :
      Stops M env s (.trap u) .diverged
  /-- The kernel fills pages of a new image that are not mapped for stores. -/
  | image (u : UserContext) (hv : u.vector=.kernel) (hc : M.syscallOf u.code=.exec)
      (hi : s.currentProcess≠s.idleProcess) (hf : ExecFaults M env (u.ptr 0) (u.ptr 1) s) :
      Stops M env s (.trap u) .faulted

/-- The machine neither is in user mode nor has a kernel stack to resume. -/
theorem Stops.stopped {input : Input} (h : Stops M env s input c) : c≠.user ∧ c≠.kernel := by
  cases h with
  | init => decide
  | idle => decide
  | table => decide
  | pipe => decide
  | image => decide

/-- The processor behind the exit of the current process. -/
theorem exit_cpu (status : ℤ) (hs : env.switchOk=true) (h0 : s.currentProcess≠0) :
    (processExitCurrent M env status s).cpu=
      if s.currentProcess=s.idleProcess then .aborted "idle process exit"
      else if s.currentProcess=s.initProcess then .halted else .kernel := by
  unfold processExitCurrent
  by_cases hi : s.currentProcess=s.idleProcess
  · rw [if_pos (.inr hi),if_pos hi]
    rfl
  · rw [if_neg (not_or.2 ⟨h0,hi⟩),if_neg hi]
    unfold leaveZombie
    rw [if_pos hs]
    split
    · rfl
    · rfl

/-- Memory and address space of a process that a trap ends: a fault has mapped
what there were frames for, an Exec has torn the old image down and left the new
one incomplete, and every other end has changed neither. -/
inductive EndSpace (M : Machine) (env : Env) (s : Kernel) (u : UserContext) :
    Memory → UserSpace → Prop
  /-- Exit and exceptions end the process with the memory it has. -/
  | kept (hm : u.vector≠.memory) (hx : ¬(u.vector=.kernel ∧ M.syscallOf u.code=.exec)) :
      EndSpace M env s u s.memory (s.space s.currentProcess)
  /-- A fault that the stack cannot grow to. -/
  | fault (hv : u.vector=.memory) :
      EndSpace M env s u (growStack M s.memory (s.space s.currentProcess) u.addr).1
        (growStack M s.memory (s.space s.currentProcess) u.addr).2.1
  /-- An Exec that fails behind the tear-down. -/
  | exec {args : List (List UInt8)} {blocks : List ℕ} {m : Memory} {v : UserSpace}
      (hv : u.vector=.kernel) (hx : M.syscallOf u.code=.exec)
      (hcopy : copyExecArgs env (u.ptr 0) (u.ptr 1)=.copied args blocks)
      (hload : loadProgram M env args (2+args.length) s.memory (s.space s.currentProcess)=
        .kill m v) : EndSpace M env s u m v

/-- The kernel in which the current process exits: its registers are those of the
trap, its pages are those that the trap has left, and nothing else has changed. -/
structure Remains (M : Machine) (env : Env) (s : Kernel) (u : UserContext) (w : Kernel) : Prop where
  /-- Everything but memory, the pages of the process and the history. -/
  rest : w={s with
    userContext := Function.update s.userContext s.currentProcess u
    memory := w.memory
    space := Function.update s.space s.currentProcess (w.space s.currentProcess)
    log := w.log}
  /-- The memory and the pages of the process that exits. -/
  pages : EndSpace M env s u w.memory (w.space s.currentProcess)

/-- The exit is that of the same process. -/
theorem Remains.actors {w : Kernel} (h : Remains M env s u w) :
    w.currentProcess=s.currentProcess ∧ w.idleProcess=s.idleProcess ∧
      w.initProcess=s.initProcess := by
  rw [h.rest]
  exact ⟨rfl,rfl,rfl⟩

/-- Only registers of the current process have changed. -/
theorem remains_context (hm : u.vector≠.memory)
    (hx : ¬(u.vector=.kernel ∧ M.syscallOf u.code=.exec)) :
    Remains M env s u (s.setUserContext s.currentProcess u) := by
  refine ⟨?_,.kept hm hx⟩
  unfold Kernel.setUserContext
  dsimp only
  rw [Function.update_eq_self]

/-- Its address space has changed, too. -/
theorem remains_space {m : Memory} {v : UserSpace} (log : List Event)
    (hv : EndSpace M env s u m v) :
    Remains M env s u {s.setUserContext s.currentProcess u with
      memory := m
      space := Function.update s.space s.currentProcess v
      log := log} := by
  refine ⟨?_,?_⟩
  · unfold Kernel.setUserContext
    dsimp only
    rw [Function.update_self]
  · dsimp only
    rw [Function.update_self]
    exact hv

/-- The status of a process that ends in a trap: the argument of Exit, or an error. -/
def endStatus (M : Machine) (u : UserContext) : ℤ :=
  if u.vector=.kernel ∧ M.syscallOf u.code=.exit then u.int 0 else ERROR

/-- The tail of TrapKernel goes back to user mode. -/
theorem trapKernelReturn_cpu : (trapKernelReturn caller u s).cpu=.user := by
  unfold trapKernelReturn
  split
  · rfl
  · split
    · rfl
    · rfl

/-- Exec ends the caller exactly when it fails behind the tear-down, it stops the
kernel exactly when the new image cannot be filled, and otherwise it returns. -/
theorem sysExec_ends (M : Machine) (env : Env) (u : UserContext) (h0 : s.currentProcess≠0)
    (filename argvec : ℕ) :
    ((s.currentProcess≠s.idleProcess ∧ ExecKills M env filename argvec s) ∧
      ∃ args blocks m v log,copyExecArgs env filename argvec=.copied args blocks ∧
        loadProgram M env args (2+args.length) s.memory (s.space s.currentProcess)=.kill m v ∧
        sysExec M env filename argvec u s=.leaves (processExitCurrent M env ERROR {s with
          memory := m
          space := Function.update s.space s.currentProcess v
          log := log})) ∨
    (s.currentProcess≠s.idleProcess ∧ ExecFaults M env filename argvec s ∧
      ∃ t,sysExec M env filename argvec u s=.leaves t ∧ t.cpu=.faulted) ∨
    (¬(s.currentProcess≠s.idleProcess ∧ ExecKills M env filename argvec s) ∧
      ¬(s.currentProcess≠s.idleProcess ∧ ExecFaults M env filename argvec s) ∧
      ∃ t v rc,sysExec M env filename argvec u s=.returns t v rc) := by
  unfold sysExec
  by_cases hi : s.currentProcess=s.idleProcess
  · rw [if_pos (.inr hi)]
    exact .inr (.inr ⟨fun h => h.1 hi,fun h => h.1 hi,_,_,_,rfl⟩)
  · rw [if_neg (not_or.2 ⟨h0,hi⟩)]
    unfold execImage
    cases hcopy : copyExecArgs env filename argvec with
    | failed allocated freed =>
      refine .inr (.inr ⟨?_,?_,_,_,_,rfl⟩)
      · rintro ⟨_,args,blocks,m,v,hcopied,_⟩
        rw [hcopy] at hcopied
        cases hcopied
      · rintro ⟨_,args,blocks,m,v,hcopied,_⟩
        rw [hcopy] at hcopied
        cases hcopied
    | copied args blocks =>
      have hsame : ∀ {args' blocks'},copyExecArgs env filename argvec=.copied args' blocks' →
          args'=args := by
        intro args' blocks' hcopied
        rw [hcopy] at hcopied
        injection hcopied with ha
        exact ha.symm
      dsimp only [noteLoads]
      cases hload : loadProgram M env args (2+args.length) s.memory (s.space s.currentProcess) with
      | error =>
        refine .inr (.inr ⟨?_,?_,_,_,_,rfl⟩)
        · rintro ⟨_,args',blocks',m,v,hcopied,hkill⟩
          rw [hsame hcopied,hload] at hkill
          cases hkill
        · rintro ⟨_,args',blocks',m,v,hcopied,hfault⟩
          rw [hsame hcopied,hload] at hfault
          cases hfault
      | kill m v =>
        exact .inl ⟨⟨hi,args,blocks,m,v,hcopy,hload⟩,args,blocks,m,v,_,rfl,hload,rfl⟩
      | fault m v =>
        exact .inr (.inl ⟨hi,⟨args,blocks,m,v,hcopy,hload⟩,_,rfl,rfl⟩)
      | success m v pc sp =>
        refine .inr (.inr ⟨?_,?_,_,_,_,rfl⟩)
        · rintro ⟨_,args',blocks',m',v',hcopied,hkill⟩
          rw [hsame hcopied,hload] at hkill
          cases hkill
        · rintro ⟨_,args',blocks',m',v',hcopied,hfault⟩
          rw [hsame hcopied,hload] at hfault
          cases hfault

/-- An Exec that tears the image down does not also stop the kernel. -/
theorem execKills_not_faults {filename argvec : ℕ} (hk : ExecKills M env filename argvec s) :
    ¬ExecFaults M env filename argvec s := by
  rintro ⟨args,blocks,m,v,hcopied,hfault⟩
  obtain ⟨args',blocks',m',v',hcopied',hkill⟩ := hk
  rw [hcopied] at hcopied'
  injection hcopied' with ha
  rw [←ha,hfault] at hkill
  cases hkill

/-- A fatal trap is an exit of the current process. -/
theorem fatal_exit (h0 : s.currentProcess≠0) (h : Fatal M env s u) :
    ∃ w,trap M env u s=processExitCurrent M env (endStatus M u) w ∧ Remains M env s u w := by
  have hsave := saveContext_current (s := s) u h0
  have herror : u.vector≠.kernel ∨ M.syscallOf u.code≠.exit → endStatus M u=ERROR := by
    intro hn
    refine if_neg (fun hx => ?_)
    rcases hn with hn|hn
    · exact hn hx.1
    · exact hn hx.2
  unfold trap
  rcases h with hv|hv|⟨hv,hg⟩|⟨hv,hcall⟩
  · rw [hv,herror (.inl (by rw [hv]; decide))]
    dsimp only [trapAbort]
    rw [hsave]
    exact ⟨_,rfl,remains_context (by rw [hv]; decide) (by rw [hv]; exact fun h => nomatch h.1)⟩
  · rw [hv,herror (.inl (by rw [hv]; decide))]
    dsimp only [trapAbort]
    rw [hsave]
    exact ⟨_,rfl,remains_context (by rw [hv]; decide) (by rw [hv]; exact fun h => nomatch h.1)⟩
  · rw [hv,herror (.inl (by rw [hv]; decide))]
    dsimp only [trapMemory]
    rw [if_neg (by rw [hg]; decide),hsave]
    exact ⟨_,rfl,remains_space s.log (.fault hv)⟩
  · rw [hv]
    dsimp only [trapKernel]
    rw [hsave]
    unfold syscallDispatch
    rcases hcall with hc|⟨hc,hi,hk⟩
    · have hstatus : endStatus M u=u.int 0 := if_pos ⟨hv,hc⟩
      rw [hc,hstatus]
      exact ⟨_,rfl,remains_context (by rw [hv]; decide) (by rw [hc]; exact fun h => nomatch h.2)⟩
    · rw [hc,herror (.inr (by rw [hc]; decide))]
      rcases @sysExec_ends (s.setUserContext s.currentProcess u) M env u h0 (u.ptr 0) (u.ptr 1) with
        ⟨_,args,blocks,m,v,log,hcopy,hload,hw⟩|⟨_,hfault,_⟩|⟨hn,_⟩
      · dsimp only
        rw [hw]
        exact ⟨_,rfl,remains_space log (.exec hv hc hcopy hload)⟩
      · exact absurd hfault (execKills_not_faults hk)
      · exact absurd ⟨hi,hk⟩ hn

/-- A fork leaves the processor only without a page table. -/
theorem sysFork_schedules (h : s.currentProcess=s.idleProcess ∨ pageTableFails env s=false) :
    Schedules (sysFork M env caller u s) := by
  unfold sysFork
  split
  · exact schedules_returns
  · rename_i hi
    have hp : ¬pageTableFails env s=true := by
      rcases h with h|h
      · exact absurd (.inr h) hi
      · rw [h]
        decide
    rw [if_neg hp]
    split
    · exact schedules_returns
    · split
      · exact sysForkReturn_schedules _
      · exact schedules_returns

/-- A write leaves the processor only when the pipe cannot reach the size. -/
theorem sysPipeWrite_schedules {id : ℤ} {a : ℕ} {len : ℤ}
    (hr : Pipes (fun pipe => ReachedCap M pipe.cap) s)
    (h : ∀ pipe,getObject s id=.pipe pipe → 0<len → a≠0 → Doubles M (wrap32 (pipe.len+len))) :
    Schedules (sysPipeWrite env id a len u s) := by
  unfold sysPipeWrite
  split
  · exact schedules_returns
  · rename_i hn
    split
    · exact schedules_returns
    · rename_i hl
      split
      · rename_i pipe ho
        have hcap : ReachedCap M pipe.cap :=
          hr _ pipe (objects_of_getObject ho (by simp))
        have hd : Doubles M (wrap32 (pipe.len+len)) :=
          h pipe ho (by omega) (fun ha => hn (.inr ⟨ha,by omega⟩))
        split
        · exact schedules_returns
        · rename_i hdiv
          exact absurd hd ((ensure_diverges hcap).1 hdiv)
        · exact schedules_returns
      · exact schedules_returns

end Stops

section Runs

/-- A trap for Exec behind the save of the registers. -/
theorem execTrap_eq (env : Env) (hv : u.vector=.kernel) (hc : M.syscallOf u.code=.exec) :
    trap M env u s=finishExec s.currentProcess
      (sysExec M env (u.ptr 0) (u.ptr 1) u (saveContext u s)) := by
  unfold trap
  rw [hv]
  dsimp only [trapKernel]
  unfold syscallDispatch
  rw [hc]

/-- A step that stops the machine leaves the processor as said. -/
theorem stops_cpu {input : Input} (hB : M.pipeBufferLen<2^31) (hok : env.switchOk=true)
    (h : Reachable M s) (h0 : s.currentProcess≠0) (hs : Stops M env s input c) :
    (kernelStep M env s input).cpu=c := by
  have hexit : ∀ {u},Fatal M env s u → (kernelStep M env s (.trap u)).cpu=
      if s.currentProcess=s.idleProcess then .aborted "idle process exit"
      else if s.currentProcess=s.initProcess then .halted else .kernel := by
    intro u hf
    obtain ⟨w,he,hw⟩ := fatal_exit h0 hf
    obtain ⟨hcur,hidle,hinit⟩ := hw.actors
    dsimp only [kernelStep]
    rw [he,exit_cpu _ hok (by rwa [hcur]),hcur,hidle,hinit]
  cases hs with
  | init u hf hi hc => rw [hexit hf,if_neg hi,if_pos hc]
  | idle u hf hi => rw [hexit hf,if_pos hi]
  | table u hv hc hi hp =>
    obtain ⟨v,hsave⟩ := saveContext_eq (s := s) u
    have hp' : pageTableFails env {s with userContext := v}=true := hp
    rw [trap_step env hv (by rw [hc]; decide)]
    dsimp only [stepFlow,callFlow]
    rw [hc,hsave]
    dsimp only [sysFork]
    rw [if_neg (not_or.2 ⟨h0,hi⟩),if_pos hp']
    rfl
  | pipe u pipe hv hc ho hl hb hd =>
    obtain ⟨v,hsave⟩ := saveContext_eq (s := s) u
    have hcap : ReachedCap M pipe.cap :=
      run_reachedCap hB h _ pipe (objects_of_getObject ho (by simp))
    have ho' : getObject {s with userContext := v} (u.int 0)=.pipe pipe := ho
    rw [trap_step env hv (by rw [hc]; decide)]
    dsimp only [stepFlow,callFlow]
    rw [hc,hsave]
    dsimp only
    rw [(write_diverges hcap ho' hl hb).2 hd]
    rfl
  | image u hv hc hi hf =>
    obtain ⟨v,hsave⟩ := saveContext_eq (s := s) u
    have hf' : ExecFaults M env (u.ptr 0) (u.ptr 1) {s with userContext := v} := hf
    dsimp only [kernelStep]
    rw [execTrap_eq env hv hc,hsave]
    rcases @sysExec_ends {s with userContext := v} M env u h0 (u.ptr 0) (u.ptr 1) with
      ⟨⟨_,hk⟩,_⟩|⟨_,_,t,he,ht⟩|⟨_,hn,_⟩
    · exact absurd hf' (execKills_not_faults hk)
    · rw [he]
      exact ht
    · exact absurd ⟨hi,hf'⟩ hn

/-- A saved kernel stack goes on to user mode or to another one. -/
theorem resume_goesOn (env : Env) (hset : Settled M s) (he : Input.resume.Enabled s) :
    GoesOn (kernelStep M env s .resume) := by
  obtain ⟨hr,hx⟩ := hset.kernel he
  have hz : (s.kernelContext s.currentProcess).point≠.exited := fun hz =>
    hr.not_zombie (hset.saved.exited _ hset.ready.current_live hz)
  by_cases hb : (s.kernelContext s.currentProcess).point=.boot
  · dsimp only [kernelStep,resume,continueAt]
    rw [hb]
    exact .inl rfl
  · by_cases hk : (s.kernelContext s.currentProcess).point=.clock
    · dsimp only [kernelStep,resume,continueAt]
      rw [hk]
      exact .inl rfl
    · rw [resume_step]
      exact (resumeFlow_schedules hx hz hb hk).finish

/-- A fatal trap stops the machine or ends one process among others. -/
theorem fatal_goesOn (hok : env.switchOk=true) (h0 : s.currentProcess≠0) (hf : Fatal M env s u) :
    GoesOn (kernelStep M env s (.trap u)) ∨ ∃ c,Stops M env s (.trap u) c := by
  by_cases hi : s.currentProcess=s.idleProcess
  · exact .inr ⟨_,.idle u hf hi⟩
  · by_cases hc : s.currentProcess=s.initProcess
    · exact .inr ⟨_,.init u hf hi hc⟩
    · obtain ⟨w,he,hw⟩ := fatal_exit h0 hf
      obtain ⟨hcur,hidle,hinit⟩ := hw.actors
      refine .inl (.inr ?_)
      dsimp only [kernelStep]
      rw [he,exit_cpu _ hok (by rwa [hcur]),hcur,hidle,hinit,if_neg hi,if_neg hc]

/-- An Exec goes on, ends its caller or stops the machine. -/
theorem exec_goesOn (hok : env.switchOk=true) (h0 : s.currentProcess≠0) (hv : u.vector=.kernel)
    (hc : M.syscallOf u.code=.exec) :
    GoesOn (kernelStep M env s (.trap u)) ∨ ∃ c,Stops M env s (.trap u) c := by
  obtain ⟨v,hsave⟩ := saveContext_eq (s := s) u
  rcases @sysExec_ends {s with userContext := v} M env u h0 (u.ptr 0) (u.ptr 1) with
    ⟨hk,_⟩|⟨hi,hf,_⟩|⟨_,_,t,w,rc,he⟩
  · exact fatal_goesOn hok h0 (.inr (.inr (.inr ⟨hv,.inr ⟨hc,hk⟩⟩)))
  · exact .inr ⟨_,.image u hv hc hi hf⟩
  · refine .inl (.inl ?_)
    dsimp only [kernelStep]
    rw [execTrap_eq env hv hc,hsave,he]
    dsimp only [finishExec]
    split
    · exact trapKernelReturn_cpu
    · exact trapKernelReturn_cpu

/-- A call of another number goes on or stops the machine. -/
theorem call_goesOn (hB : M.pipeBufferLen<2^31) (hok : env.switchOk=true) (h : Reachable M s)
    (h0 : s.currentProcess≠0) (hv : u.vector=.kernel) :
    GoesOn (kernelStep M env s (.trap u)) ∨ ∃ c,Stops M env s (.trap u) c := by
  obtain ⟨v,hsave⟩ := saveContext_eq (s := s) u
  by_cases hx : M.syscallOf u.code=.exec
  · exact exec_goesOn hok h0 hv hx
  have hcall : Schedules (stepFlow M env s (.trap u)) → GoesOn (kernelStep M env s (.trap u)) := by
    intro hf
    rw [trap_step env hv hx]
    exact hf.finish
  dsimp only [stepFlow] at hcall
  rw [hsave] at hcall
  by_cases hm : MayStop (M.syscallOf u.code)
  · unfold callFlow at hcall
    rcases hm with hc|hc|hc|hc
    · rw [hc] at hcall
      by_cases hstop : s.currentProcess=s.idleProcess ∨ pageTableFails env s=false
      · exact .inl (hcall (sysFork_schedules hstop))
      · obtain ⟨hi,hp⟩ := not_or.1 hstop
        exact .inr ⟨_,.table u hv hc hi (by simpa using hp)⟩
    · exact absurd hc hx
    · exact fatal_goesOn hok h0 (.inr (.inr (.inr ⟨hv,.inl hc⟩)))
    · rw [hc] at hcall
      refine Classical.or_iff_not_imp_right.2 fun hn => ?_
      have hcaps : Pipes (fun pipe => ReachedCap M pipe.cap) s := run_reachedCap hB h
      refine hcall (sysPipeWrite_schedules (s := {s with userContext := v}) hcaps
        (fun pipe ho hl hb => ?_))
      by_contra hd
      exact hn ⟨_,.pipe u pipe hv hc ho hl hb hd⟩
  · exact .inl (hcall (callFlow_schedules hm))

/-- Any other step goes on. -/
theorem goesOn_or_stops {input : Input} (hB : M.pipeBufferLen<2^31) (hok : env.switchOk=true)
    (h : Reachable M s) (he : input.Enabled s) :
    GoesOn (kernelStep M env s input) ∨ ∃ c,Stops M env s input c := by
  have hset := reachable_settled h
  have h0 : s.currentProcess≠0 := hset.ready.ne_null hset.ready.current_live
  cases input with
  | resume => exact .inl (resume_goesOn env hset he)
  | trap u =>
    cases hv : u.vector with
    | clock =>
      refine .inl (.inr ?_)
      dsimp only [kernelStep,trap]
      rw [hv]
      rfl
    | illegal => exact fatal_goesOn hok h0 (.inl hv)
    | math => exact fatal_goesOn hok h0 (.inr (.inl hv))
    | memory =>
      cases hg : (growStack M s.memory (s.space s.currentProcess) u.addr).2.2 with
      | false => exact fatal_goesOn hok h0 (.inr (.inr (.inl ⟨hv,hg⟩)))
      | true =>
        refine .inl (.inl ?_)
        dsimp only [kernelStep,trap]
        rw [hv]
        dsimp only [trapMemory]
        rw [if_pos hg]
        rfl
    | kernel => exact call_goesOn hB hok h h0 hv
    | ttyReceive =>
      refine .inl (.inl ?_)
      dsimp only [kernelStep,trap]
      rw [hv]
      rfl
    | ttyTransmit =>
      refine .inl (.inl ?_)
      dsimp only [kernelStep,trap]
      rw [hv]
      rfl
    | disk =>
      refine .inl (.inl ?_)
      dsimp only [kernelStep,trap]
      rw [hv]
      rfl
    | other =>
      refine .inl (.inl ?_)
      dsimp only [kernelStep,trap]
      rw [hv]
      rfl

/-- The buffers that the last trap of the current process names lie in pages of
that process, as its table was at the trap, that may be stored to and read. -/
def BuffersMapped (M : Machine) (env : Env) (s : Kernel) (g : PcbPtr → Option Entry)
    (tables : PcbPtr → PageTable) (input : Input) : Prop :=
  ∀ e,entered s g input s.currentProcess=some e →
    Within (Writable M (tablesAt s tables input s.currentProcess)) (namedStores M e.context) ∧
      Within (Readable M (tablesAt s tables input s.currentProcess)) (namedLoads M env e.context)

/-- A trap without pointers names no buffers. -/
theorem buffersMapped_none {g : PcbPtr → Option Entry} {tables : PcbPtr → PageTable}
    (hs : namedStores M u=[]) (hl : namedLoads M env u=[]) :
    BuffersMapped M env s g tables (.trap u) := by
  intro e he
  have hent : entered s g (.trap u) s.currentProcess=some ⟨u,s.objects⟩ := if_pos (.inl rfl)
  rw [hent] at he
  injection he with he
  subst he
  dsimp only
  rw [hs,hl]
  exact ⟨fun b hb => absurd hb List.not_mem_nil,fun b hb => absurd hb List.not_mem_nil⟩

end Runs

end Yalnix.Halting

import Yalnix.ProgramLoading

/-!
# Process and memory calls, and the dispatcher

Each call either returns a result in the same kernel entry or leaves the
processor with the point saved at which it continues. The dispatcher puts
results into the first register and runs the tail of the kernel trap.
-/

namespace Yalnix.Syscalls

open Framework FrameTable KernelState Scheduling Ipc Terminals ProcessLifetime ProgramLoading

/-- The first zombie among the children of a process. -/
def zombieChild (s : Kernel) (p : PcbPtr) : Option PcbPtr :=
  (s.children p).find? (fun c => s.state c=.zombie)

/-- Block the current process until a child exits, without scheduling. -/
def blockForChild (k : KernelContext) (uctxt : UserContext) (s : Kernel) : Kernel :=
  {s with
    waitingForChild := Function.update s.waitingForChild s.currentProcess true
    userContext := Function.update s.userContext s.currentProcess uctxt
    kernelContext := Function.update s.kernelContext s.currentProcess k
    state := Function.update s.state s.currentProcess .blocked}

/-- Report a zombie child to its parent and destroy it. -/
def collectChild (M : Machine) (statusPtr : ℕ) (c : PcbPtr) (s : Kernel) : Kernel :=
  processDestroy M c {s with
    log := s.log++(if statusPtr=0 then [] else [.stored s.currentProcess statusPtr 4])++
      [.waited (s.birth s.currentProcess) (s.birth c) (s.pid c) (s.exitStatus c)]}

/-- The loop of SysWait: collect a zombie, fail without children, or block. -/
def waitLoop (M : Machine) (env : Env) (caller : PcbPtr) (statusPtr : ℕ) (uctxt : UserContext)
    (s : Kernel) : Flow :=
  match zombieChild s s.currentProcess with
  | some c => .returns (collectChild M statusPtr c s) uctxt (s.pid c)
  | none =>
    if (s.children s.currentProcess).isEmpty=true then .returns s uctxt ERROR
    else .leaves (processSchedule M env (blockForChild ⟨caller,.wait statusPtr⟩ uctxt s))

/-- Wait for a child to exit. -/
def sysWait (M : Machine) (env : Env) (caller : PcbPtr) (statusPtr : ℕ) (uctxt : UserContext)
    (s : Kernel) : Flow :=
  if s.currentProcess=0 ∨ s.currentProcess=s.idleProcess then .returns s uctxt ERROR
  else waitLoop M env caller statusPtr uctxt s

/-- The identifier of the caller. -/
def sysGetPid (uctxt : UserContext) (s : Kernel) : Flow :=
  if s.currentProcess=0 then .returns s uctxt ERROR
  else .returns s uctxt (s.pid s.currentProcess)

/-- Whether a break request is refused before any page is touched. -/
def BrkRefused (M : Machine) (space : UserSpace) (addr : ℕ) : Prop :=
  space.userHeapStart=0 ∨ addr< space.userHeapStart ∨ M.vmem1Limit≤addr ∨
    space.userStackLowPage≤M.region1Page (M.upToPage addr)

instance (M : Machine) (space : UserSpace) (addr : ℕ) : Decidable (BrkRefused M space addr) :=
  inferInstanceAs (Decidable (_ ∨ _))

/-- Move the break of an address space by whole pages. -/
def moveBrk (M : Machine) (m : Memory) (space : UserSpace) (addr : ℕ) :
    Memory × UserSpace × Bool :=
  if BrkRefused M space addr then (m,space,false)
  else
    let oldPage := M.region1Page (M.upToPage space.userBrk)
    let newPage := M.region1Page (M.upToPage addr)
    match growPages M oldPage (newPage-oldPage).toNat 0 m space.region1Pt with
    | (m,pt,false) => (m,{space with region1Pt := pt},false)
    | (m,pt,true) =>
      ((shrinkPages M (oldPage-newPage).toNat newPage m pt).1,
        {space with
          region1Pt := (shrinkPages M (oldPage-newPage).toNat newPage m pt).2
          userBrk := M.upToPage addr},true)

/-- Set the break of the current process. -/
def sysBrk (M : Machine) (addr : ℕ) (uctxt : UserContext) (s : Kernel) : Flow :=
  if s.currentProcess=0 then .returns s uctxt ERROR
  else .returns {s with
      memory := (moveBrk M s.memory (s.space s.currentProcess) addr).1
      space := Function.update s.space s.currentProcess
        (moveBrk M s.memory (s.space s.currentProcess) addr).2.1} uctxt
    (if (moveBrk M s.memory (s.space s.currentProcess) addr).2.2=true then SUCCESS else ERROR)

/-- Grow the stack of an address space down to a fault address. -/
def growStack (M : Machine) (m : Memory) (space : UserSpace) (addr : ℕ) :
    Memory × UserSpace × Bool :=
  if addr<M.vmem1Base ∨ M.vmem1Limit≤addr then (m,space,false)
  else if space.userStackLowPage≤M.region1Page addr ∨
      M.region1Page addr≤M.region1Page (M.upToPage space.userBrk) then (m,space,false)
  else
    match growStackPages M (space.userStackLowPage-M.region1Page addr).toNat
        (space.userStackLowPage-1) m space.region1Pt with
    | (m,pt,false) => (m,{space with region1Pt := pt},false)
    | (m,pt,true) =>
      (m,{space with region1Pt := pt, userStackLowPage := M.region1Page addr},true)

/-- Block the current process until a deadline, without scheduling. -/
def blockForDelay (deadline : ℕ) (k : KernelContext) (uctxt : UserContext) (s : Kernel) : Kernel :=
  {s with
    delayUntil := Function.update s.delayUntil s.currentProcess deadline
    userContext := Function.update s.userContext s.currentProcess (uctxt.setResult SUCCESS)
    kernelContext := Function.update s.kernelContext s.currentProcess k
    state := Function.update s.state s.currentProcess .blocked}

/-- The deadline of a delay, computed modulo 2^32. -/
def delayDeadline (s : Kernel) (ticks : ℤ) : ℕ := (s.clockTicks+ticks.toNat)%2^32

/-- Sleep for a number of ticks. -/
def sysDelay (M : Machine) (env : Env) (caller : PcbPtr) (ticks : ℤ) (uctxt : UserContext)
    (s : Kernel) : Flow :=
  if ticks<0 then .returns s uctxt ERROR
  else if ticks=0 then .returns s uctxt SUCCESS
  else if s.currentProcess=0 ∨ s.currentProcess=s.idleProcess then .returns s uctxt ERROR
  else .leaves (processSchedule M env
    (blockForDelay (delayDeadline s ticks) ⟨caller,.delay⟩ uctxt s))

/-- Resume user mode with the given registers. -/
def returnToUser (uctxt : UserContext) (s : Kernel) : Kernel :=
  {s with cpu := .user, uctxt := uctxt}

/-- The tail of TrapKernel: keep the registers of the caller, load those of
the current process. -/
def trapKernelReturn (caller : PcbPtr) (uctxt : UserContext) (s : Kernel) : Kernel :=
  if caller=s.currentProcess ∧ s.currentProcess≠0 then
    returnToUser uctxt (s.setUserContext s.currentProcess uctxt)
  else if s.currentProcess≠0 then returnToUser (s.userContext s.currentProcess) s
  else returnToUser uctxt s

/-- Put the result of a call into the first register and return. -/
def finish (caller : PcbPtr) : Flow → Kernel
  | .returns s uctxt rc => trapKernelReturn caller (uctxt.setResult rc) s
  | .leaves s => s

/-- Exec resumes with the registers of the new image, or fails. -/
def finishExec (caller : PcbPtr) : Flow → Kernel
  | .returns s uctxt rc =>
    if rc=SUCCESS then trapKernelReturn caller (s.userContext s.currentProcess) s
    else trapKernelReturn caller (uctxt.setResult ERROR) s
  | .leaves s => s

/-- Run the system call that the registers ask for. -/
def syscallDispatch (M : Machine) (env : Env) (caller : PcbPtr) (u : UserContext) (s : Kernel) :
    Kernel :=
  match M.syscallOf u.code with
  | .fork => finish caller (sysFork M env caller u s)
  | .exec => finishExec caller (sysExec M env (u.ptr 0) (u.ptr 1) u s)
  | .exit => processExitCurrent M env (u.int 0) s
  | .wait => finish caller (sysWait M env caller (u.ptr 0) u s)
  | .getPid => finish caller (sysGetPid u s)
  | .brk => finish caller (sysBrk M (u.ptr 0) u s)
  | .delay => finish caller (sysDelay M env caller (u.int 0) u s)
  | .ttyRead => finish caller (sysTtyRead M env caller (u.int 0) (u.ptr 1) (u.int 2) u s)
  | .ttyWrite => finish caller (sysTtyWrite M env caller (u.int 0) (u.ptr 1) (u.int 2) u s)
  | .pipeInit => finish caller (sysPipeInit M env (u.ptr 0) u s)
  | .pipeRead => finish caller (sysPipeRead M env caller (u.int 0) (u.ptr 1) (u.int 2) u s)
  | .pipeWrite => finish caller (sysPipeWrite env (u.int 0) (u.ptr 1) (u.int 2) u s)
  | .lockInit => finish caller (sysLockInit (u.ptr 0) u s)
  | .acquire => finish caller (lockAcquire M env caller (u.int 0) u s)
  | .release => finish caller (sysRelease (u.int 0) u s)
  | .cvarInit => finish caller (sysCvarInit (u.ptr 0) u s)
  | .cvarSignal => finish caller (sysCvarSignal (u.int 0) u s)
  | .cvarBroadcast => finish caller (sysCvarBroadcast (u.int 0) u s)
  | .cvarWait => finish caller (sysCvarWait M env caller (u.int 0) (u.int 1) u s)
  | .reclaim => finish caller (sysReclaim (u.int 0) u s)
  | .unsupported => finish caller (.returns s u ERROR)

end Yalnix.Syscalls

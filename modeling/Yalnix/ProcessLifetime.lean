import Yalnix.Terminals

/-!
# Creation, exit and destruction of processes

A child gets its own kernel stack, identifier and a copy of the parent's
pages before it is entered anywhere. An exiting process orphans its children,
gives up its locks and stays as a zombie until its parent collects it.
-/

namespace Yalnix.ProcessLifetime

open Framework FrameTable KernelState Scheduling Ipc Terminals

/-- The terminal request of a fresh block. -/
def zeroRequest : TtyRequest := ⟨0,0,0,none,fun _ => 0,0,0⟩

/-- Address of a fresh process control block, which was not in use. -/
def callocPcb (env : Env) (s : Kernel) : Option PcbPtr :=
  if env.malloc 0=true ∧ env.pcbAddr≠0 ∧ s.live env.pcbAddr=false then some env.pcbAddr else none

/-- Enter a process in the table when its identifier fits. -/
def processRegister (M : Machine) (p : PcbPtr) (pid : ℤ) (table : ℕ → PcbPtr) : ℕ → PcbPtr :=
  if 0≤pid ∧ pid<M.maxProcs then Function.update table pid.toNat p else table

/-- Enter a child with its kernel stack, address space and identifier. -/
def enterChild (M : Machine) (parent child : PcbPtr) (pid : ℤ) (pfns : ℕ → ℕ) (pt : PageTable)
    (m : Memory) (s : Kernel) : Kernel :=
  {s with
    live := Function.update s.live child true
    pid := Function.update s.pid child pid
    state := Function.update s.state child .ready
    userContext := Function.update s.userContext child (s.userContext parent)
    kernelContext := Function.update s.kernelContext child (s.kernelContext parent)
    space := Function.update s.space child
      ⟨pt,pfns,(s.space parent).userBrk,(s.space parent).userHeapStart,
        (s.space parent).userStackLowPage⟩
    delayUntil := Function.update s.delayUntil child 0
    exitStatus := Function.update s.exitStatus child 0
    waitingForChild := Function.update s.waitingForChild child false
    tty := Function.update s.tty child zeroRequest
    parent := Function.update s.parent child parent
    children := Function.update (Function.update s.children child [])
      parent (s.children parent++[child])
    blockQueue := Function.update s.blockQueue child none
    birth := Function.update s.birth child s.stamp
    processTable := processRegister M child pid s.processTable
    memory := m
    stamp := s.stamp+1}

/-- Identifiers that helper_new_pid gave out and helper_retire_pid took back. -/
structure PidLedger where
  /-- The identifiers given out by helper_new_pid, in order. -/
  obtained : List ℤ
  /-- The identifiers taken back by helper_retire_pid, in order. -/
  retired : List ℤ
  deriving DecidableEq

/-- Create a child, undoing every allocation when one fails, and record the
identifiers that were given out and taken back on the way. -/
def createChildRun (M : Machine) (env : Env) (parent : PcbPtr) (s : Kernel) :
    (Kernel × Option PcbPtr) × PidLedger :=
  match callocPcb env s with
  | none => ((s,none),⟨[],[]⟩)
  | some child =>
    match processAllocKernelStack M s.memory with
    | (m,none) => (({s with memory := m},none),⟨[],[]⟩)
    | (m,some pfns) =>
      if env.newPid=ERROR then
        (({s with memory := (processFreeKernelStack M m pfns).1},none),⟨[],[]⟩)
      else match processCopyRegion1 M m (s.space parent).region1Pt with
        | (m,none) =>
          (({s with memory := (processFreeKernelStack M m pfns).1},none),
            ⟨[env.newPid],[env.newPid]⟩)
        | (m,some pt) =>
          ((enterChild M parent child env.newPid pfns pt m s,some child),⟨[env.newPid],[]⟩)

/-- The state and the child that ProcessCreateChild leaves. -/
def processCreateChild (M : Machine) (env : Env) (parent : PcbPtr) (s : Kernel) :
    Kernel × Option PcbPtr := (createChildRun M env parent s).1

/-- The identifiers that ProcessCreateChild was given and gave back. -/
def createChildPids (M : Machine) (env : Env) (parent : PcbPtr) (s : Kernel) : PidLedger :=
  (createChildRun M env parent s).2

/-- Take every child off the list of an ending process. -/
def orphanChildren (p : PcbPtr) : List PcbPtr → Kernel → Kernel
  | [],s => s
  | c::rest,s => orphanChildren p rest {s with
      children := Function.update s.children p rest
      parent := Function.update s.parent c 0}

/-- Unlink a process from the ready queue. -/
def leaveReady (p : PcbPtr) (s : Kernel) : Kernel :=
  {s with readyQueue := s.readyQueue.erase p}

/-- Unlink a process from the queue it is blocked on. -/
def leaveBlockQueue (p : PcbPtr) (s : Kernel) : Kernel :=
  match s.blockQueue p with
  | none => s
  | some q =>
    if p∈s.queue q then
      {s with
        queue := Function.update s.queue q ((s.queue q).erase p)
        blockQueue := Function.update s.blockQueue p none}
    else s

/-- Unlink a process from the children of its parent. -/
def leaveParent (p : PcbPtr) (s : Kernel) : Kernel :=
  if s.parent p≠0 then
    {s with
      children := Function.update s.children (s.parent p)
        ((s.children (s.parent p)).erase p)}
  else s

/-- Free the frames of a process and its control block. -/
def releaseProcess (M : Machine) (p : PcbPtr) (s : Kernel) : Kernel :=
  {s with
    processTable := if 0≤ s.pid p ∧ s.pid p<M.maxProcs ∧ s.processTable (s.pid p).toNat=p then
        Function.update s.processTable (s.pid p).toNat 0
      else s.processTable
    memory := if p=s.idleProcess then
        (memoryFreePageTableFrames M s.memory (s.space p).region1Pt).1
      else (processFreeKernelStack M
        (memoryFreePageTableFrames M s.memory (s.space p).region1Pt).1
        (s.space p).kernelStackPfns).1
    live := Function.update s.live p false}

/-- Remove every trace of a process. -/
def processDestroy (M : Machine) (p : PcbPtr) (s : Kernel) : Kernel :=
  if p=0 then s
  else releaseProcess M p (leaveBlockQueue p (leaveReady p
    (orphanChildren p ((leaveParent p s).children p) (leaveParent p s))))

/-- The identifier that ProcessDestroy gives back. -/
def destroyPids (p : PcbPtr) (s : Kernel) : List ℤ := if p=0 then [] else [s.pid p]

/-- Mark the current process a zombie and wake a waiting parent. -/
def becomeZombie (status : ℤ) (k : KernelContext) (s : Kernel) : Kernel :=
  if s.parent s.currentProcess≠0 ∧ s.waitingForChild (s.parent s.currentProcess)=true then
    processMakeReady {s with
      exitStatus := Function.update s.exitStatus s.currentProcess status
      state := Function.update s.state s.currentProcess .zombie
      kernelContext := Function.update s.kernelContext s.currentProcess k
      waitingForChild := Function.update s.waitingForChild (s.parent s.currentProcess) false
      log := s.log++[.exited s.currentProcess (s.birth s.currentProcess)
          (s.parent s.currentProcess) status,
        .woken (s.parent s.currentProcess) (.child s.currentProcess)]} (s.parent s.currentProcess)
  else {s with
    exitStatus := Function.update s.exitStatus s.currentProcess status
    state := Function.update s.state s.currentProcess .zombie
    kernelContext := Function.update s.kernelContext s.currentProcess k
    log := s.log++[.exited s.currentProcess (s.birth s.currentProcess)
      (s.parent s.currentProcess) status]}

/-- Schedule behind the end of a process. When KernelContextSwitch fails the
scheduler returns to the zombie, which aborts. -/
def leaveZombie (M : Machine) (env : Env) (s : Kernel) : Kernel :=
  if env.switchOk=true then processSchedule M env s
  else (processSchedule M env s).kernelPanic "zombie process resumed"

/-- End the current process. The initial process halts the machine. -/
def processExitCurrent (M : Machine) (env : Env) (status : ℤ) (s : Kernel) : Kernel :=
  if s.currentProcess=0 ∨ s.currentProcess=s.idleProcess then s.kernelPanic "idle process exit"
  else if s.currentProcess=s.initProcess then {s with cpu := .halted}
  else leaveZombie M env (becomeZombie status ⟨s.currentProcess,.exited⟩
    (ipcProcessExit s.currentProcess
      (orphanChildren s.currentProcess (s.children s.currentProcess) s)))

/-- Copy the running kernel stack to a child that continues in SysFork. -/
def kcCopy (M : Machine) (p : PcbPtr) (k : KernelContext) (s : Kernel) : Kernel :=
  {s with
    kernelContext := Function.update s.kernelContext p k
    memory := copyKernelStack M (s.space p).kernelStackPfns
      (List.range M.kernelStackPages) s.memory}

/-- SysFork behind the cloning of the kernel context, in either process. -/
def sysForkReturn (child : PcbPtr) (uctxt : UserContext) (s : Kernel) : Flow :=
  if s.currentProcess=child then .returns s uctxt 0
  else .returns (processMakeReady s child) uctxt (s.pid child)

/-- The page table of a new process cannot be allocated. -/
def pageTableFails (env : Env) (s : Kernel) : Bool :=
  (callocPcb env s).isSome && !env.malloc 1

/-- Create a copy of the calling process. -/
def sysFork (M : Machine) (env : Env) (caller : PcbPtr) (uctxt : UserContext) (s : Kernel) : Flow :=
  if s.currentProcess=0 ∨ s.currentProcess=s.idleProcess then .returns s uctxt ERROR
  else if pageTableFails env s=true then .leaves (s.kernelPanic "calloc page table failed")
  else match processCreateChild M env s.currentProcess s with
    | (s,none) => .returns s uctxt ERROR
    | (s,some child) =>
      if env.cloneOk=true then
        sysForkReturn child uctxt ((kcCopy M child ⟨caller,.fork child⟩
          (s.setUserContext child ((s.userContext child).setResult 0))).emit
            (.forked (s.birth s.currentProcess) (s.birth child) (s.pid child)))
      else .returns (processDestroy M child
        (s.setUserContext child ((s.userContext child).setResult 0))) uctxt ERROR

/-- The identifiers of SysFork. Destroying the child gives its identifier back. -/
def forkPids (M : Machine) (env : Env) (s : Kernel) : PidLedger :=
  if s.currentProcess=0 ∨ s.currentProcess=s.idleProcess then ⟨[],[]⟩
  else if pageTableFails env s=true then ⟨[],[]⟩
  else match processCreateChild M env s.currentProcess s with
    | (_,none) => createChildPids M env s.currentProcess s
    | (t,some child) =>
      if env.cloneOk=true then createChildPids M env s.currentProcess s
      else ⟨(createChildPids M env s.currentProcess s).obtained,
        (createChildPids M env s.currentProcess s).retired++destroyPids child t⟩

end Yalnix.ProcessLifetime

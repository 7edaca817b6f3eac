import Yalnix.Traps

/-!
# Boot and runs

KernelStart reserves the frames of the kernel image, the heap and the boot
stack, creates the idle process on the boot stack and the initial process on
a stack of its own, switches to the latter and loads its program. A run takes
traps in user mode and continues saved kernel stacks, in any order and with
any answers from outside the kernel that the run's conditions allow.
-/

namespace Yalnix.KernelStart

open Framework FrameTable KernelState Scheduling Ipc Terminals ProcessLifetime ProgramLoading
open Syscalls Traps

/-- The address space of a fresh block. -/
def zeroSpace : UserSpace := ⟨fun _ => zeroPte,fun _ => 0,0,0,0⟩

/-- What the machine provides at boot. The heap can grow while the page table
of Region 0 is allocated, so the break is read three times. -/
structure Boot (M : Machine) where
  /-- The registers with which the kernel is started. -/
  uctxt : UserContext
  /-- The number of physical frames. -/
  frames : ℕ
  /-- Kernel break before the page table is allocated. -/
  brkAtInit : ℕ
  /-- Kernel break behind that allocation. -/
  brkAfterTable : ℕ
  /-- Kernel break when Region 0 is mapped. -/
  brkAtBuild : ℕ
  /-- Whether MemoryInit gets the page table of Region 0. -/
  tableAllocated : Bool := true
  /-- Answers during the creation of the idle process. -/
  idleEnv : Env
  /-- Answers during the creation of the initial process. -/
  initEnv : Env
  /-- Arguments of the initial program. -/
  args : List (List UInt8)
  /-- Initial contents of physical memory. -/
  contents : ℕ → ℕ → UInt8
  /-- The break is never below the kernel image. -/
  brk_image : M.origKernelBrkPage≤brkAtInit
  /-- Before virtual memory is enabled the reported break does not fall. -/
  brk_grows : brkAtInit≤brkAfterTable
  /-- Nor does it fall until Region 0 is mapped. -/
  brk_grows_again : brkAfterTable≤brkAtBuild

/-- The frames that MemoryInit reserves for the kernel image and the boot stack. -/
def reserved (M : Machine) (b : Boot M) (pfn : ℕ) : Bool :=
  decide (pfn<b.frames ∧ (pfn<b.brkAtInit ∨ pfn<b.brkAfterTable ∨
    (M.kernelStackBasePage≤pfn ∧ pfn<M.kernelStackBasePage+M.kernelStackPages)))

/-- Region 0 as MemoryBuildKernelRegion0 leaves it: live pages map to themselves. -/
def bootRegion0 (M : Machine) (b : Boot M) : PageTable := fun page =>
  if M.maxPtLen≤page then zeroPte
  else if M.kernelStackBasePage≤page ∧ page<M.kernelStackBasePage+M.kernelStackPages then
    ⟨true,protReadWrite,page⟩
  else if M.firstKernelDataPage≤page ∧ page<b.brkAtBuild then ⟨true,protReadWrite,page⟩
  else if M.firstKernelTextPage≤page ∧ page<M.firstKernelDataPage then ⟨true,protReadExec,page⟩
  else zeroPte

/-- The kernel variables before any process exists. -/
def emptyKernel (M : Machine) (b : Boot M) : Kernel where
  live := fun _ => false
  pid := fun _ => 0
  state := fun _ => .empty
  userContext := fun _ => b.uctxt
  kernelContext := fun _ => ⟨0,.executing⟩
  space := fun _ => zeroSpace
  delayUntil := fun _ => 0
  exitStatus := fun _ => 0
  waitingForChild := fun _ => false
  tty := fun _ => zeroRequest
  parent := fun _ => 0
  children := fun _ => []
  blockQueue := fun _ => none
  birth := fun _ => 0
  currentProcess := 0
  idleProcess := 0
  initProcess := 0
  readyQueue := []
  clockTicks := 0
  processTable := fun _ => 0
  queue := fun _ => []
  objects := fun _ => .free
  terminals := fun _ => ⟨[],none,0,false⟩
  memory := ⟨reserved M b,b.frames,bootRegion0 M b,b.contents⟩
  cpu := .aborted ""
  uctxt := b.uctxt
  stamp := 0
  log := []

/-- Enter the idle process on the boot stack and make it current. -/
def enterIdle (M : Machine) (b : Boot M) (p : PcbPtr) (pfn : ℕ) (m : Memory) (s : Kernel) :
    Kernel :=
  {s with
    live := Function.update s.live p true
    pid := Function.update s.pid p b.idleEnv.newPid
    state := Function.update s.state p .running
    userContext := Function.update s.userContext p
      {b.uctxt with pc := M.doIdle, sp := M.vmem1Limit-4}
    space := Function.update s.space p {zeroSpace with
      region1Pt := Function.update zeroSpace.region1Pt (M.maxPtLen-1) ⟨true,protReadWrite,pfn⟩
      kernelStackPfns := fun i => if i<2 then M.kernelStackBasePage+i else 0}
    birth := Function.update s.birth p s.stamp
    currentProcess := p
    idleProcess := p
    processTable := processRegister M p b.idleEnv.newPid s.processTable
    memory := m
    stamp := s.stamp+1
    cpu := .kernel}

/-- ProcessCreateIdle: the idle process is created around the boot registers. -/
def createIdle (M : Machine) (b : Boot M) (s : Kernel) : Kernel :=
  match callocPcb b.idleEnv s with
  | none => s.kernelPanic "failed to create idle process"
  | some p =>
    if b.idleEnv.malloc 1=false then s.kernelPanic "calloc page table failed"
    else match frameAlloc s.memory with
      | none => s.kernelPanic "failed to create idle process"
      | some (pfn,m) =>
        if b.idleEnv.newPid=ERROR then s.kernelPanic "failed to create idle process"
        else enterIdle M b p pfn m s

/-- The initial process is entered with its kernel stack and its table. -/
def enterInit (M : Machine) (b : Boot M) (p : PcbPtr) (pfns : ℕ → ℕ) (m : Memory)
    (s : Kernel) : Kernel :=
  {s with
    live := Function.update s.live p true
    pid := Function.update s.pid p b.initEnv.newPid
    state := Function.update s.state p .ready
    userContext := Function.update s.userContext p b.uctxt
    space := Function.update s.space p {zeroSpace with
      kernelStackPfns := pfns, userStackLowPage := M.maxPtLen}
    birth := Function.update s.birth p s.stamp
    initProcess := p
    processTable := processRegister M p b.initEnv.newPid s.processTable
    memory := m
    stamp := s.stamp+1}

/-- Create the initial process and clone the boot stack for it. -/
def createInit (M : Machine) (b : Boot M) (s : Kernel) : Kernel :=
  match callocPcb b.initEnv s with
  | none => s.kernelPanic "failed to create init process"
  | some p =>
    if b.initEnv.malloc 1=false then s.kernelPanic "calloc page table failed"
    else match processAllocKernelStack M s.memory with
      | (_,none) => s.kernelPanic "failed to create init process"
      | (m,some pfns) =>
        if b.initEnv.newPid=ERROR then s.kernelPanic "failed to create init process"
        else if b.initEnv.cloneOk=false then s.kernelPanic "failed to clone init kernel context"
        else kcCopy M p ⟨p,.boot⟩ (enterInit M b p pfns m s)

/-- Load the initial program in the initial process and leave for it. -/
def loadInit (M : Machine) (b : Boot M) (s : Kernel) : Kernel :=
  match loadProgram M b.initEnv b.args 2 s.memory (s.space s.initProcess) with
  | .success m space pc sp =>
    returnToUser {s.userContext s.initProcess with pc := pc, sp := sp.toNat} {s with
      memory := m
      space := Function.update s.space s.initProcess space
      userContext := Function.update s.userContext s.initProcess
        {s.userContext s.initProcess with pc := pc, sp := sp.toNat}
      kernelContext := Function.update s.kernelContext s.initProcess ⟨s.initProcess,.executing⟩}
  | .fault m space =>
    {s with memory := m, space := Function.update s.space s.initProcess space, cpu := .faulted}
  | _ => s.kernelPanic "failed to load init"

/-- Switch from idle, which continues behind the switch, to the initial process. -/
def switchToInit (M : Machine) (b : Boot M) (s : Kernel) : Kernel :=
  if b.initEnv.switchOk=false then s.kernelPanic "failed to switch to init"
  else loadInit M b (processSwitch M b.initEnv s.initProcess
    (s.setKernelContext s.idleProcess ⟨s.idleProcess,.boot⟩))

/-- Whether boot has already failed. -/
def bootFailed (s : Kernel) : Bool := decide (s.cpu≠.kernel)

/-- Boot the kernel up to the first return to user mode. -/
def kernelStart (M : Machine) (b : Boot M) : Kernel :=
  if M.maxFrames<b.frames then
    (emptyKernel M b).kernelPanic "physical memory exceeds frame table capacity"
  else if b.tableAllocated=false then
    (emptyKernel M b).kernelPanic "calloc page table failed"
  else if bootFailed (createIdle M b (emptyKernel M b))=true then
    createIdle M b (emptyKernel M b)
  else if bootFailed (createInit M b (createIdle M b (emptyKernel M b)))=true then
    createInit M b (createIdle M b (emptyKernel M b))
  else switchToInit M b (createInit M b (createIdle M b (emptyKernel M b)))

/-- States of the runs whose boot and whose steps meet the given conditions.
A boot that fails stops the machine, so that no run starts. -/
inductive Run (M : Machine) (okBoot : Boot M → Prop) (ok : Kernel → Env → Input → Prop) :
    Kernel → Prop
  /-- The state behind KernelStart. -/
  | boot (b : Boot M) (h : okBoot b) (hu : (kernelStart M b).cpu=.user) :
      Run M okBoot ok (kernelStart M b)
  /-- A run goes on with one more step that meets the condition. -/
  | step {s : Kernel} (env : Env) (input : Input) (hs : Run M okBoot ok s)
      (he : input.Enabled s) (h : ok s env input) : Run M okBoot ok (kernelStep M env s input)

/-- Switching between kernel contexts succeeds. -/
def SwitchSucceeds (_ : Kernel) (env : Env) (_ : Input) : Prop := env.switchOk=true

/-- States of all runs in which KernelContextSwitch switches contexts. -/
def Reachable (M : Machine) : Kernel → Prop := Run M (fun _ => True) SwitchSucceeds

/-- A run under stronger conditions is a run. -/
theorem Run.mono {M : Machine} {okBoot okBoot' : Boot M → Prop}
    {ok ok' : Kernel → Env → Input → Prop} (hb : ∀ b,okBoot b → okBoot' b)
    (h : ∀ s env input,ok s env input → ok' s env input) {s : Kernel}
    (hs : Run M okBoot ok s) : Run M okBoot' ok' s := by
  induction hs with
  | boot b hok hu => exact .boot b (hb b hok) hu
  | step env input _ he hok ih => exact .step env input ih he (h _ _ _ hok)

end Yalnix.KernelStart

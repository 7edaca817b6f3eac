import Yalnix.KernelState

/-!
# The ready queue and the scheduler

A process that gives up the processor first saves the point at which its
kernel stack continues. The scheduler wakes due sleepers, requeues a running
process, picks the head of the ready queue or idle, and switches to it. The
picked process then resumes its saved kernel context. The link fields of a
ready entry are null exactly when the process is not on the ready queue.
-/

namespace Yalnix.Scheduling

open Framework FrameTable KernelState

/-- Make a process ready and link it unless it is linked already. -/
def processMakeReady (s : Kernel) (p : PcbPtr) : Kernel :=
  if p=0 ∨ p=s.idleProcess ∨ s.state p=.zombie then s
  else if p∈s.readyQueue then {s with state := Function.update s.state p .ready}
  else {s with
    state := Function.update s.state p .ready
    readyQueue := s.readyQueue++[p]
    log := s.log++[.linked p]}

/-- A table entry whose delay is over. -/
def DelayOver (s : Kernel) (p : PcbPtr) : Prop :=
  p≠0 ∧ s.state p=.blocked ∧ s.delayUntil p≠0 ∧ s.delayUntil p≤ s.clockTicks

instance (s : Kernel) (p : PcbPtr) : Decidable (DelayOver s p) :=
  inferInstanceAs (Decidable (_ ∧ _))

/-- One round of the loop over the process table. -/
def wakeIfOver (s : Kernel) (i : ℕ) : Kernel :=
  if DelayOver s (s.processTable i) then
    processMakeReady {s with
      delayUntil := Function.update s.delayUntil (s.processTable i) 0
      log := s.log++[.woken (s.processTable i)
        (.delay (s.delayUntil (s.processTable i)) s.clockTicks)]} (s.processTable i)
  else s

/-- Make every process ready whose delay is over. -/
def processWakeDelayed (M : Machine) (s : Kernel) : Kernel :=
  (List.range M.maxProcs).foldl wakeIfOver s

/-- Requeue the current process if it is still running. -/
def requeueCurrent (s : Kernel) : Kernel :=
  if s.currentProcess≠0 ∧ s.currentProcess≠s.idleProcess ∧ s.state s.currentProcess=.running then
    processMakeReady s s.currentProcess
  else s

/-- The process that ProcessNextReady returns, idle when the queue is empty. -/
def nextProcess (s : Kernel) : PcbPtr :=
  match s.readyQueue with
  | [] => s.idleProcess
  | p::_ => if p=0 then s.idleProcess else p

/-- Install the kernel stack and the address space of the next process. -/
def kcSwitch (M : Machine) (next : PcbPtr) (s : Kernel) : Kernel :=
  {s with
    currentProcess := next
    memory := {s.memory with
      kernelRegion0Pt := installKernelStack M (s.space next).kernelStackPfns
        (List.range M.kernelStackPages) s.memory.kernelRegion0Pt}}

/-- Switch to another process. A failed KernelContextSwitch stays on the
current process although the other one is marked running. -/
def processSwitch (M : Machine) (env : Env) (next : PcbPtr) (s : Kernel) : Kernel :=
  if next=0 ∨ next=s.currentProcess then s
  else if env.switchOk=true then
    kcSwitch M next {s with state := Function.update s.state next .running}
  else {s with state := Function.update s.state next .running}

/-- Take the next process off the ready queue and switch to it. -/
def dispatchNext (M : Machine) (env : Env) (s : Kernel) : Kernel :=
  {processSwitch M env (nextProcess s) {s with
    readyQueue := s.readyQueue.tail
    log := s.log++[.dispatched s.currentProcess (nextProcess s) (s.state (nextProcess s))
      s.readyQueue]} with
    cpu := .kernel}

/-- Give the processor to the next process. -/
def processSchedule (M : Machine) (env : Env) (s : Kernel) : Kernel :=
  dispatchNext M env (requeueCurrent (processWakeDelayed M s))

end Yalnix.Scheduling

import Yalnix.Syscalls

/-!
# Traps and resumed kernel stacks

A kernel entry starts with a trap taken in user mode and ends when user mode
is resumed, the machine stops, or the scheduler has picked a process. In the
last case the saved kernel stack of that process continues as a step of its
own, which may again end in the scheduler.
-/

namespace Yalnix.Traps

open Framework FrameTable KernelState Scheduling Ipc Terminals ProcessLifetime ProgramLoading
open Syscalls

/-- Save the registers of the current process. -/
def saveContext (u : UserContext) (s : Kernel) : Kernel :=
  if s.currentProcess≠0 then s.setUserContext s.currentProcess u else s

/-- The first line of TrapClock: the tick is counted. -/
def tickClock (s : Kernel) : Kernel :=
  {s with clockTicks := (s.clockTicks+1)%2^32, log := s.log++[.tick]}

/-- Preemption: count the tick and schedule. -/
def trapClock (M : Machine) (env : Env) (u : UserContext) (s : Kernel) : Kernel :=
  processSchedule M env ((tickClock (saveContext u s)).setKernelContext s.currentProcess
    ⟨s.currentProcess,.clock⟩)

/-- TrapKernel: the function of the call is run and its result returned. -/
def trapKernel (M : Machine) (env : Env) (u : UserContext) (s : Kernel) : Kernel :=
  syscallDispatch M env s.currentProcess u (saveContext u s)

/-- A fault grows the stack or ends the process. -/
def trapMemory (M : Machine) (env : Env) (u : UserContext) (s : Kernel) : Kernel :=
  if (growStack M s.memory (s.space s.currentProcess) u.addr).2.2=true then
    returnToUser u {saveContext u s with
      memory := (growStack M s.memory (s.space s.currentProcess) u.addr).1
      space := Function.update s.space s.currentProcess
        (growStack M s.memory (s.space s.currentProcess) u.addr).2.1}
  else processExitCurrent M env ERROR {saveContext u s with
      memory := (growStack M s.memory (s.space s.currentProcess) u.addr).1
      space := Function.update s.space s.currentProcess
        (growStack M s.memory (s.space s.currentProcess) u.addr).2.1}

/-- An exception ends the process. -/
def trapAbort (M : Machine) (env : Env) (u : UserContext) (s : Kernel) : Kernel :=
  processExitCurrent M env ERROR (saveContext u s)

/-- Run the handler of the trap vector. -/
def trap (M : Machine) (env : Env) (u : UserContext) (s : Kernel) : Kernel :=
  match u.vector with
  | .clock => trapClock M env u s
  | .kernel => trapKernel M env u s
  | .memory => trapMemory M env u s
  | .illegal => trapAbort M env u s
  | .math => trapAbort M env u s
  | .ttyReceive => returnToUser u (trapTtyReceive M env u s)
  | .ttyTransmit => returnToUser u (trapTtyTransmit M u s)
  | .disk => returnToUser u s
  | .other => returnToUser u s

/-- The saved registers of the current process, which every resumed call
loads into its trap frame first. -/
def savedContext (s : Kernel) : UserContext := s.userContext s.currentProcess

/-- Continue a saved kernel stack. -/
def continueAt (M : Machine) (env : Env) (k : KernelContext) (s : Kernel) : Kernel :=
  match k.point with
  | .executing => s.kernelPanic "nothing saved"
  | .boot => returnToUser (savedContext s) s
  | .clock => returnToUser (savedContext s) s
  | .fork child => finish k.caller (sysForkReturn child (savedContext s) s)
  | .wait statusPtr =>
    finish k.caller (waitLoop M env k.caller statusPtr (savedContext s)
      {s with waitingForChild := Function.update s.waitingForChild s.currentProcess false})
  | .delay => finish k.caller (.returns s (savedContext s) SUCCESS)
  | .ttyRead t => finish k.caller (ttyReadLoop M env k.caller t (savedContext s) s)
  | .ttyWrite t len => finish k.caller (ttyWriteResume t len (savedContext s) s)
  | .pipeRead pipeId buf len _ =>
    finish k.caller (pipeReadLoop M env k.caller pipeId buf len (savedContext s) s)
  | .acquire lockId _ =>
    finish k.caller (lockAcquireResume M env k.caller lockId (savedContext s) s)
  | .cvarWait cvarId lockId _ _ =>
    finish k.caller (cvarWaitResume M env k.caller cvarId lockId (savedContext s) s)
  | .exited => s.kernelPanic "zombie process resumed"

/-- Resume the current process on its saved kernel stack. -/
def resume (M : Machine) (env : Env) (s : Kernel) : Kernel :=
  continueAt M env (s.kernelContext s.currentProcess)
    (s.setKernelContext s.currentProcess ⟨s.currentProcess,.executing⟩)

/-- What happens next: a trap in user mode or the continuation of a saved
kernel stack. -/
inductive Input
  /-- The hardware enters the kernel with these registers. -/
  | trap (u : UserContext)
  /-- The scheduler's choice continues. -/
  | resume

/-- Whether an input can occur. -/
def Input.Enabled (s : Kernel) : Input → Prop
  | .trap _ => s.cpu=.user
  | .resume => s.cpu=.kernel

/-- One step of the kernel. -/
def kernelStep (M : Machine) (env : Env) (s : Kernel) : Input → Kernel
  | .trap u => trap M env u s
  | .resume => resume M env s

end Yalnix.Traps

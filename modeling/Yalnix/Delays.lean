import Yalnix.FailedForks
import Yalnix.Housekeeping
import Yalnix.WaitErrors

/-!
# Delays

A process in Delay sleeps until ProcessWakeDelayed finds the clock at its
deadline. As long as the clock does not wrap around before the deadline, that is
the tick asked for and no other. A deadline behind the wrap-around is reached at
once, and the deadline zero is the mark of processes that do not sleep: such a
process is never woken.
-/

namespace Yalnix.Delays

open Framework FrameTable KernelState Scheduling Ipc Terminals ProcessLifetime ProgramLoading
open Syscalls Traps KernelStart Coherence Operations OperationCoherence StepOperations
open CallOperations RunInvariants Traces BlockingReasons FailedForks Housekeeping

variable {M : Machine} {env : Env} {s t w : Kernel} {p q c : PcbPtr} {u : UserContext}
  {l : List Event} {i : ℕ} {a : QueueAddr} {f : Flow}

section Steadiness

/-- No tick is counted, no process is created, and those that are not destroyed
stay in the process table under their identifiers. -/
structure Steady (s t : Kernel) : Prop where
  /-- The clock has counted no tick. -/
  ticks : tickCount t.log=tickCount s.log
  /-- No process has been created. -/
  live : ∀ q,t.live q=true → s.live q=true
  /-- Every process has the same identifier. -/
  pid : t.pid=s.pid
  /-- The processes that remain keep their entries in the table. -/
  table : ∀ i q,t.live q=true → s.processTable i=q → t.processTable i=q

/-- A state is steady relative to itself. -/
theorem Steady.refl (s : Kernel) : Steady s s := ⟨rfl,fun _ h => h,rfl,fun _ _ _ h => h⟩

/-- A steady change behind a steady change is steady. -/
theorem Steady.trans (h : Steady s t) (h' : Steady t w) : Steady s w :=
  ⟨h'.ticks.trans h.ticks,fun q hq => h.live q (h'.live q hq),h'.pid.trans h.pid,
    fun i q hq he => h'.table i q hq (h.table i q (h'.live q hq) he)⟩

/-- A change that records other events and leaves the processes alone. -/
theorem steady_log (l : List Event) (hl : t.log=s.log++l) (ht : tickCount l=0)
    (hlive : t.live=s.live) (hp : t.pid=s.pid) (hx : t.processTable=s.processTable) :
    Steady s t := by
  refine ⟨?_,fun q hq => ?_,hp,fun i q _ he => ?_⟩
  · rw [hl,tickCount,List.countP_append]
    exact (congrArg _ ht).trans (Nat.add_zero _)
  · rw [hlive] at hq
    exact hq
  · rw [hx]
    exact he

/-- A change that records nothing and leaves the processes alone. -/
theorem steady_same (hl : t.log=s.log) (hlive : t.live=s.live) (hp : t.pid=s.pid)
    (hx : t.processTable=s.processTable) : Steady s t :=
  steady_log [] (hl.trans (List.append_nil _).symm) rfl hlive hp hx

/-- Routine events are no ticks. -/
theorem routine_ticks (h : ∀ e∈l,Routine e) : tickCount l=0 := by
  refine List.countP_eq_zero.2 fun e he ht => ?_
  cases e with
  | tick => exact (h _ he).elim
  | _ => cases ht

/-- What queues, terminals and the scheduler do is steady. -/
theorem keeping_steady (h : Keeping s t) : Steady s t := by
  obtain ⟨l,hl,hq⟩ := h.log
  exact steady_log l hl (routine_ticks hq) h.live h.pid h.table

/-- ProcessDestroy counts no tick, creates no process and renames none. -/
theorem processDestroy_steady (c : PcbPtr) (s : Kernel) : Steady s (processDestroy M c s) := by
  have hrelease : ∀ s,Steady s (releaseProcess M c s) := by
    intro s
    refine ⟨rfl,fun q hq => ?_,rfl,fun i q hq he => ?_⟩
    · dsimp only [releaseProcess] at hq
      by_cases hqc : q=c
      · rw [hqc,Function.update_self] at hq
        cases hq
      · rw [Function.update_of_ne hqc] at hq
        exact hq
    · dsimp only [releaseProcess] at hq ⊢
      have hqc : q≠c := by
        rintro rfl
        rw [Function.update_self] at hq
        cases hq
      split
      · rename_i hc
        have hi : i≠(s.pid c).toNat := by
          rintro rfl
          exact hqc (he.symm.trans hc.2.2)
        rw [Function.update_of_ne hi]
        exact he
      · exact he
  unfold processDestroy
  split
  · exact .refl s
  · exact (keeping_steady (leaveLinks_keeping c s)).trans (hrelease _)

/-- ProcessExitCurrent counts no tick, creates no process and renames none. -/
theorem processExitCurrent_steady (status : ℤ) (s : Kernel) :
    Steady s (processExitCurrent M env status s) := by
  have hzombie : ∀ k s,Steady s (becomeZombie status k s) := by
    intro k s
    unfold becomeZombie
    split
    · refine Steady.trans ?_ (keeping_steady (makeReady_keeping _ _))
      exact steady_log [_,_] rfl rfl rfl rfl rfl
    · exact steady_log [_] rfl rfl rfl rfl rfl
  unfold processExitCurrent
  split
  · exact steady_same rfl rfl rfl rfl
  · split
    · exact steady_same rfl rfl rfl rfl
    · have hfreed := (orphanChildren_keeping s.currentProcess (s.children s.currentProcess) s).trans
        (ipcProcessExit_keeping s.currentProcess _)
      have hended := (keeping_steady hfreed).trans (hzombie ⟨s.currentProcess,.exited⟩ _)
      exact hended.trans (keeping_steady (leaveZombie_keeping _))

end Steadiness

section Calls

/-- The state that a call ends in is steady. -/
def FlowSteady (s : Kernel) : Flow → Prop
  | .returns t _ _ => Steady s t
  | .leaves t => Steady s t

/-- A change before the call. -/
theorem Steady.flow (h : Steady s t) (hf : FlowSteady t f) : FlowSteady s f := by
  cases f with
  | returns w u rc => exact h.trans hf
  | leaves w => exact h.trans hf

/-- A call returns to user mode. -/
theorem trapKernelReturn_steady (caller : PcbPtr) (u : UserContext) (s : Kernel) :
    Steady s (trapKernelReturn caller u s) := by
  unfold trapKernelReturn
  split
  · exact steady_same rfl rfl rfl rfl
  · split
    · exact steady_same rfl rfl rfl rfl
    · exact steady_same rfl rfl rfl rfl

/-- The tail of a call. -/
theorem FlowSteady.finish (h : FlowSteady s f) (caller : PcbPtr) :
    Steady s (Syscalls.finish caller f) := by
  cases f with
  | returns t u rc =>
    have ht : Steady s t := h
    exact ht.trans (trapKernelReturn_steady _ _ _)
  | leaves t => exact h

/-- What Exec does behind the loading is steady. -/
theorem FlowSteady.finishExec (h : FlowSteady s f) (caller : PcbPtr) :
    Steady s (Syscalls.finishExec caller f) := by
  cases f with
  | returns t u rc =>
    have ht : Steady s t := h
    unfold Syscalls.finishExec
    dsimp only
    split
    · exact ht.trans (trapKernelReturn_steady _ _ _)
    · exact ht.trans (trapKernelReturn_steady _ _ _)
  | leaves t => exact h

/-- A process blocks on a queue. -/
theorem blockOnQueue_steady (k : KernelContext) (u : UserContext) (s : Kernel) :
    Steady s (blockOnQueue M env a k u s) := by
  unfold blockOnQueue
  refine Steady.trans ?_ (keeping_steady (schedule_keeping _))
  exact steady_same rfl rfl rfl rfl

/-- Recording the loads of a call keeps the clock and the processes. -/
theorem noteLoads_steady (l : List (ℕ × ℕ)) (s : Kernel) : Steady s (noteLoads l s) := by
  refine steady_log _ rfl (List.countP_eq_zero.2 (fun e he => ?_)) rfl rfl rfl
  obtain ⟨x,_,rfl⟩ := List.mem_map.1 he
  exact Bool.false_ne_true

/-- Exec counts no tick, creates no process and renames none. -/
theorem sysExec_steady (filename argvec : ℕ) (u : UserContext) (s : Kernel) :
    FlowSteady s (sysExec M env filename argvec u s) := by
  unfold sysExec
  split
  · exact .refl s
  · refine Steady.flow (noteLoads_steady (execLoads env filename argvec) s) ?_
    unfold execImage
    split
    · exact steady_log [_] rfl rfl rfl rfl rfl
    · split
      · exact steady_log [_] rfl rfl rfl rfl rfl
      · refine Steady.trans ?_ (processExitCurrent_steady _ _)
        exact steady_log [_] rfl rfl rfl rfl rfl
      · exact steady_log [_] rfl rfl rfl rfl rfl
      · exact steady_log [_] rfl rfl rfl rfl rfl

/-- The loop of Wait counts no tick and renames no process. -/
theorem waitLoop_steady (caller : PcbPtr) (statusPtr : ℕ) (u : UserContext) (s : Kernel) :
    FlowSteady s (waitLoop M env caller statusPtr u s) := by
  unfold waitLoop
  split
  · unfold collectChild
    refine Steady.trans ?_ (processDestroy_steady _ _)
    refine steady_log _ (List.append_assoc ..) ?_ rfl rfl rfl
    split
    · rfl
    · rfl
  · split
    · exact .refl s
    · refine Steady.trans ?_ (keeping_steady (schedule_keeping _))
      exact steady_same rfl rfl rfl rfl

/-- The loop of PipeRead counts no tick and renames no process. -/
theorem pipeReadLoop_steady (caller : PcbPtr) (id : ℤ) (buf : ℕ) (len : ℤ) (u : UserContext)
    (s : Kernel) : FlowSteady s (pipeReadLoop M env caller id buf len u s) := by
  unfold pipeReadLoop
  split
  · split
    · exact blockOnQueue_steady _ _ _
    · exact steady_log [_,_] rfl rfl rfl rfl rfl
  · exact .refl s

/-- PipeWrite counts no tick, creates no process and renames none. -/
theorem sysPipeWrite_steady (id : ℤ) (buf : ℕ) (len : ℤ) (u : UserContext) (s : Kernel) :
    FlowSteady s (sysPipeWrite env id buf len u s) := by
  unfold sysPipeWrite
  split
  · exact .refl s
  · split
    · exact .refl s
    · split
      · split
        · exact .refl s
        · exact steady_same rfl rfl rfl rfl
        · have hemit : ∀ (w : Kernel) id b,Steady w (w.emit (.pipeWrote id b)) :=
            fun _ _ _ => steady_log [_] rfl rfl rfl rfl rfl
          refine Steady.trans ?_ (hemit _ _ _)
          refine Steady.trans ?_ (keeping_steady (wakeAll_keeping _ _))
          exact steady_log [_] rfl rfl rfl rfl rfl
      · exact .refl s

/-- The loop of LockAcquire counts no tick and renames no process. -/
theorem lockAcquireLoop_steady (caller : PcbPtr) (id : ℤ) (lock : LockState) (u : UserContext)
    (s : Kernel) : FlowSteady s (lockAcquireLoop M env caller id lock u s) := by
  unfold lockAcquireLoop
  split
  · refine Steady.trans ?_ (keeping_steady (schedule_keeping _))
    exact steady_log [_] rfl rfl rfl rfl rfl
  · exact steady_log [_] rfl rfl rfl rfl rfl

/-- LockAcquire counts no tick, creates no process and renames none. -/
theorem lockAcquire_steady (caller : PcbPtr) (id : ℤ) (u : UserContext) (s : Kernel) :
    FlowSteady s (lockAcquire M env caller id u s) := by
  unfold lockAcquire
  split
  · split
    · exact .refl s
    · split
      · exact .refl s
      · exact lockAcquireLoop_steady _ _ _ _ _
  · exact .refl s

/-- LockAcquire that goes on counts no tick and renames no process. -/
theorem lockAcquireResume_steady (caller : PcbPtr) (id : ℤ) (u : UserContext) (s : Kernel) :
    FlowSteady s (lockAcquireResume M env caller id u s) := by
  unfold lockAcquireResume
  split
  · split
    · exact steady_log [_] rfl rfl rfl rfl rfl
    · exact lockAcquireLoop_steady _ _ _ _ _
  · exact .refl s

/-- CvarWait counts no tick, creates no process and renames none. -/
theorem sysCvarWait_steady (caller : PcbPtr) (cvarId lockId : ℤ) (u : UserContext) (s : Kernel) :
    FlowSteady s (sysCvarWait M env caller cvarId lockId u s) := by
  unfold sysCvarWait
  split
  · split
    · exact .refl s
    · have hblock : ∀ i k (w : Kernel),Steady w (blockOnCvar i k u w) :=
        fun _ _ _ => steady_log [_] rfl rfl rfl rfl rfl
      exact ((keeping_steady (lockRelease_keeping _ _ s)).trans (hblock _ _ _)).trans
        (keeping_steady (schedule_keeping _))
  · exact .refl s

/-- The loop of TtyRead counts no tick and renames no process. -/
theorem ttyReadLoop_steady (caller : PcbPtr) (i : ℕ) (u : UserContext) (s : Kernel) :
    FlowSteady s (ttyReadLoop M env caller i u s) := by
  unfold ttyReadLoop
  split
  · exact steady_log [_,_] rfl rfl rfl rfl rfl
  · split
    · exact steady_log [_,_] rfl rfl rfl rfl rfl
    · exact blockOnQueue_steady _ _ _

/-- TtyWrite counts no tick, creates no process and renames none. -/
theorem sysTtyWrite_steady (caller : PcbPtr) (id : ℤ) (buf : ℕ) (len : ℤ) (u : UserContext)
    (s : Kernel) : FlowSteady s (sysTtyWrite M env caller id buf len u s) := by
  have hprepare : ∀ k i,Steady s (prepareWrite env k i buf len u s) :=
    fun _ _ => steady_log [_,_] rfl rfl rfl rfl rfl
  have hbecome : ∀ i (w : Kernel),Steady w (becomeWriter i w) :=
    fun _ _ => steady_same rfl rfl rfl rfl
  have hjoin : ∀ i (w : Kernel),Steady w (queueWriter i w) :=
    fun _ _ => steady_same rfl rfl rfl rfl
  unfold sysTtyWrite
  split
  · exact .refl s
  · split
    · exact .refl s
    · split
      · exact .refl s
      · split
        · exact .refl s
        · split
          · exact ((hprepare _ _).trans (hbecome _ _)).trans
              ((keeping_steady (startWriteFrom_keeping _ _ _)).trans
                (keeping_steady (schedule_keeping _)))
          · exact ((hprepare _ _).trans (hjoin _ _)).trans (keeping_steady (schedule_keeping _))

/-- The return from SysFork counts no tick and renames no process. -/
theorem sysForkReturn_steady (child : PcbPtr) (u : UserContext) (s : Kernel) :
    FlowSteady s (sysForkReturn child u s) := by
  unfold sysForkReturn
  split
  · exact .refl s
  · exact keeping_steady (makeReady_keeping _ _)

/-- Every call but Fork is steady. -/
theorem syscallDispatch_steady (caller : PcbPtr) (u : UserContext) (s : Kernel)
    (hf : M.syscallOf u.code≠.fork) : Steady s (syscallDispatch M env caller u s) := by
  unfold syscallDispatch
  split
  · rename_i hc
    exact absurd hc hf
  · exact (sysExec_steady _ _ _ _).finishExec _
  · exact processExitCurrent_steady _ _
  · refine FlowSteady.finish ?_ _
    unfold sysWait
    split
    · exact .refl s
    · exact waitLoop_steady _ _ _ _
  · refine FlowSteady.finish ?_ _
    unfold sysGetPid
    split
    · exact .refl s
    · exact .refl s
  · refine FlowSteady.finish ?_ _
    unfold sysBrk
    split
    · exact .refl s
    · exact steady_same rfl rfl rfl rfl
  · refine FlowSteady.finish ?_ _
    unfold sysDelay
    split
    · exact .refl s
    · split
      · exact .refl s
      · split
        · exact .refl s
        · refine Steady.trans ?_ (keeping_steady (schedule_keeping _))
          exact steady_same rfl rfl rfl rfl
  · refine FlowSteady.finish ?_ _
    unfold sysTtyRead
    split
    · exact .refl s
    · split
      · exact .refl s
      · split
        · exact .refl s
        · refine Steady.flow ?_ (ttyReadLoop_steady _ _ _ _)
          exact steady_same rfl rfl rfl rfl
  · exact (sysTtyWrite_steady _ _ _ _ _ _).finish _
  · refine FlowSteady.finish ?_ _
    unfold sysPipeInit
    split
    · exact .refl s
    · split
      · exact .refl s
      · split
        · exact steady_log [_] rfl rfl rfl rfl rfl
        · exact .refl s
  · refine FlowSteady.finish ?_ _
    unfold sysPipeRead
    split
    · exact .refl s
    · split
      · exact .refl s
      · split
        · exact .refl s
        · exact pipeReadLoop_steady _ _ _ _ _ _
  · exact (sysPipeWrite_steady _ _ _ _ _).finish _
  · refine FlowSteady.finish ?_ _
    unfold sysLockInit
    split
    · exact .refl s
    · split
      · exact .refl s
      · exact steady_log [_] rfl rfl rfl rfl rfl
  · exact (lockAcquire_steady _ _ _ _).finish _
  · refine FlowSteady.finish ?_ _
    unfold sysRelease
    split
    · split
      · exact .refl s
      · exact keeping_steady (lockRelease_keeping _ _ _)
    · exact .refl s
  · refine FlowSteady.finish ?_ _
    unfold sysCvarInit
    split
    · exact .refl s
    · split
      · exact .refl s
      · exact steady_log [_] rfl rfl rfl rfl rfl
  · refine FlowSteady.finish ?_ _
    unfold sysCvarSignal
    split
    · exact keeping_steady (wakeOne_keeping _ _)
    · exact .refl s
  · refine FlowSteady.finish ?_ _
    unfold sysCvarBroadcast
    split
    · exact keeping_steady (wakeAll_keeping _ _)
    · exact .refl s
  · exact (sysCvarWait_steady _ _ _ _ _).finish _
  · refine FlowSteady.finish ?_ _
    unfold sysReclaim
    split
    · exact .refl s
    · exact steady_same rfl rfl rfl rfl
  · refine FlowSteady.finish ?_ _
    exact Steady.refl s

/-- A saved kernel stack that continues is steady. -/
theorem continueAt_steady (k : KernelContext) (s : Kernel) : Steady s (continueAt M env k s) := by
  unfold continueAt
  split
  · exact steady_same rfl rfl rfl rfl
  · exact steady_same rfl rfl rfl rfl
  · exact steady_same rfl rfl rfl rfl
  · exact (sysForkReturn_steady _ _ _).finish _
  · refine FlowSteady.finish (Steady.flow ?_ (waitLoop_steady _ _ _ _)) _
    exact steady_same rfl rfl rfl rfl
  · refine FlowSteady.finish ?_ _
    exact Steady.refl s
  · exact (ttyReadLoop_steady _ _ _ _).finish _
  · refine FlowSteady.finish ?_ _
    exact steady_log [_] rfl rfl rfl rfl rfl
  · exact (pipeReadLoop_steady _ _ _ _ _ _).finish _
  · exact (lockAcquireResume_steady _ _ _ _).finish _
  · refine FlowSteady.finish ?_ _
    unfold cvarWaitResume
    split
    · exact lockAcquire_steady _ _ _ _
    · exact .refl s
  · exact steady_same rfl rfl rfl rfl

/-- Saving the registers counts no tick and renames no process. -/
theorem saveContext_steady (u : UserContext) (s : Kernel) : Steady s (saveContext u s) := by
  unfold saveContext
  split
  · exact steady_same rfl rfl rfl rfl
  · exact .refl s

/-- TrapMemory counts no tick, creates no process and renames none. -/
theorem trapMemory_steady (u : UserContext) (s : Kernel) : Steady s (trapMemory M env u s) := by
  have hsave := saveContext_steady u s
  unfold trapMemory
  split
  · refine Steady.trans hsave ?_
    exact steady_same rfl rfl rfl rfl
  · refine Steady.trans (hsave.trans ?_) (processExitCurrent_steady _ _)
    exact steady_same rfl rfl rfl rfl

end Calls

section Table

/-- Every process whose identifier is in range is in the process table. -/
def Listed (M : Machine) (s : Kernel) : Prop :=
  ∀ q,s.live q=true → 0≤ s.pid q → s.pid q<M.maxProcs → s.processTable (s.pid q).toNat=q

/-- A steady change keeps the table. -/
theorem Listed.steady (h : Listed M s) (hs : Steady s t) : Listed M t := by
  intro q hq h0 hm
  rw [hs.pid] at h0 hm ⊢
  exact hs.table _ q hq (h q (hs.live q hq) h0 hm)

/-- A process with a new identifier is registered. -/
theorem entered_listed {pfns : ℕ → ℕ} {pt : PageTable} {m : Memory} (h : Listed M s)
    (hf : FreshPid env s) : Listed M (enterChild M p c env.newPid pfns pt m s) := by
  intro q hq h0 hm
  dsimp only [enterChild] at hq h0 hm ⊢
  unfold processRegister
  by_cases hqc : q=c
  · subst hqc
    rw [Function.update_self] at h0 hm ⊢
    rw [if_pos ⟨h0,hm⟩,Function.update_self]
  · rw [Function.update_of_ne hqc] at hq h0 hm ⊢
    have hold := h q hq h0 hm
    split
    · have hne : (s.pid q).toNat≠env.newPid.toNat := by
        have := hf q hq
        omega
      rw [Function.update_of_ne hne]
      exact hold
    · exact hold

/-- A number of ticks is counted, every process is in the table, and those that
existed keep their identifiers. -/
structure Counted (M : Machine) (n : ℕ) (s t : Kernel) : Prop where
  /-- The clock has counted the given number of ticks. -/
  ticks : tickCount t.log=tickCount s.log+n
  /-- Every process is listed in the process table. -/
  listed : Listed M t
  /-- The processes that existed keep their identifiers. -/
  pid : ∀ q,s.live q=true → t.pid q=s.pid q

/-- A steady change counts nothing. -/
theorem Steady.counted (h : Listed M s) (hs : Steady s t) : Counted M 0 s t :=
  ⟨hs.ticks,h.steady hs,fun q _ => congrFun hs.pid q⟩

/-- A steady change behind others. -/
theorem Counted.steady {n : ℕ} (h : Counted M n s t) (hs : Steady t w) : Counted M n s w :=
  ⟨hs.ticks.trans h.ticks,h.listed.steady hs,fun q hq => (congrFun hs.pid q).trans (h.pid q hq)⟩

/-- The child of a fork is registered. -/
theorem sysFork_counted (caller : PcbPtr) (u : UserContext) (h : Listed M s)
    (hf : FreshPid env s) : ∃ w,Counted M 0 s w ∧ FlowSteady w (sysFork M env caller u s) := by
  unfold sysFork
  split
  · exact ⟨s,Steady.counted h (.refl s),.refl s⟩
  · split
    · exact ⟨s,Steady.counted h (.refl s),steady_same rfl rfl rfl rfl⟩
    · rcases processCreateChild_cases M env s s.currentProcess with
        ⟨m,he⟩|⟨c,pfns,pt,m₁,m,hc,hk,hn,hp,he⟩
      · rw [he]
        exact ⟨s,Steady.counted h (.refl s),steady_same rfl rfl rfl rfl⟩
      · have hkept : ∀ q,s.live q=true →
            (enterChild M s.currentProcess c env.newPid pfns pt m s).pid q=s.pid q := by
          intro q hq
          refine Function.update_of_ne ?_ ..
          rintro rfl
          cases (callocPcb_fresh hc).2.symm.trans hq
        rw [he]
        refine ⟨enterChild M s.currentProcess c env.newPid pfns pt m s,
          ⟨rfl,entered_listed h hf,hkept⟩,?_⟩
        dsimp only
        split
        · refine Steady.flow ?_ (sysForkReturn_steady _ _ _)
          exact steady_log [_] rfl rfl rfl rfl rfl
        · refine Steady.trans ?_ (processDestroy_steady _ _)
          exact steady_same rfl rfl rfl rfl

/-- The clock traps among the inputs. -/
def clockTraps : Input → ℕ
  | .trap u => if u.vector=.clock then 1 else 0
  | .resume => 0

/-- Whether an input is a call of Fork. -/
def Forks (M : Machine) : Input → Prop
  | .trap u => u.vector=.kernel ∧ M.syscallOf u.code=.fork
  | .resume => False

/-- A clock trap counts exactly one tick. -/
theorem tickClock_counted (h : Listed M s) (hs : Steady s t) : Counted M 1 s (tickClock t) := by
  have hl : Listed M t := h.steady hs
  refine ⟨?_,hl,fun q _ => congrFun hs.pid q⟩
  rw [←hs.ticks,tickCount,tickClock,List.countP_append]
  rfl

/-- A call counts nothing and keeps the table. -/
theorem trapKernel_counted (u : UserContext) (h : Listed M s)
    (hf : M.syscallOf u.code=.fork → FreshPid env s) : Counted M 0 s (trapKernel M env u s) := by
  have hsave := saveContext_steady u s
  by_cases hc : M.syscallOf u.code=.fork
  · have hfresh : FreshPid env (saveContext u s) := by
      intro q hq
      rw [hsave.pid]
      exact hf hc q (hsave.live q hq)
    obtain ⟨w,hw,hs⟩ := sysFork_counted s.currentProcess u (h.steady hsave) hfresh
    have hcall : trapKernel M env u s=
        finish s.currentProcess (sysFork M env s.currentProcess u (saveContext u s)) := by
      unfold trapKernel syscallDispatch
      rw [hc]
    have hlive : ∀ q,s.live q=true → (saveContext u s).live q=true := by
      intro q hq
      unfold saveContext
      split
      · exact hq
      · exact hq
    have hstart : Counted M 0 s w :=
      ⟨hw.ticks.trans hsave.ticks,hw.listed,
        fun q hq => (hw.pid q (hlive q hq)).trans (congrFun hsave.pid q)⟩
    rw [hcall]
    exact hstart.steady (hs.finish s.currentProcess)
  · exact (hsave.trans (syscallDispatch_steady _ u _ hc)).counted h

/-- Each entry counts a tick exactly if it is a clock trap, and keeps the table. -/
theorem kernelStep_counted (input : Input) (h : Listed M s)
    (hf : Forks M input → FreshPid env s) :
    Counted M (clockTraps input) s (kernelStep M env s input) := by
  cases input with
  | resume =>
    refine Steady.counted h (Steady.trans ?_ (continueAt_steady _ _))
    exact steady_same rfl rfl rfl rfl
  | trap u =>
    have hsave := saveContext_steady u s
    have hreturn : ∀ w,Steady w (returnToUser u w) := fun _ => steady_same rfl rfl rfl rfl
    have habort : Steady s (trapAbort M env u s) := hsave.trans (processExitCurrent_steady _ _)
    unfold kernelStep trap clockTraps
    dsimp only
    cases hv : u.vector with
    | clock =>
      refine (tickClock_counted h hsave).steady (Steady.trans ?_
        (keeping_steady (schedule_keeping _)))
      exact steady_same rfl rfl rfl rfl
    | kernel => exact trapKernel_counted u h (fun hc => hf ⟨hv,hc⟩)
    | memory => exact (trapMemory_steady u s).counted h
    | illegal => exact habort.counted h
    | math => exact habort.counted h
    | ttyReceive =>
      exact ((keeping_steady (trapTtyReceive_keeping u s)).trans (hreturn _)).counted h
    | ttyTransmit =>
      exact ((keeping_steady (trapTtyTransmit_keeping u s)).trans (hreturn _)).counted h
    | disk => exact (hreturn s).counted h
    | other => exact (hreturn s).counted h

/-- Idle and the initial process are registered at boot. -/
theorem booted_listed {b : Boot M} {pfn : ℕ} {pfns : ℕ → ℕ} {m₁ m₂ m : Memory} {v : UserSpace}
    (hne : q≠p) (hb : b.idleEnv.newPid≠b.initEnv.newPid) :
    Listed M (bootedKernel M b p q pfn pfns m₁ m₂ m v u) := by
  intro x hx h0 hm
  change Function.update (Function.update (fun _ => false) p true) q true x=true at hx
  change 0≤Function.update (Function.update (fun _ => (0 : ℤ)) p b.idleEnv.newPid) q
    b.initEnv.newPid x
    at h0
  change Function.update (Function.update (fun _ => (0 : ℤ)) p b.idleEnv.newPid) q
    b.initEnv.newPid x<
    M.maxProcs at hm
  change processRegister M q b.initEnv.newPid (processRegister M p b.idleEnv.newPid (fun _ => 0))
    (Function.update (Function.update (fun _ => (0 : ℤ)) p b.idleEnv.newPid) q
      b.initEnv.newPid x).toNat=x
  unfold processRegister
  by_cases hq : x=q
  · subst hq
    rw [Function.update_self] at h0 hm ⊢
    rw [if_pos ⟨h0,hm⟩,Function.update_self]
  · rw [Function.update_of_ne hq] at hx h0 hm ⊢
    by_cases hp : x=p
    · subst hp
      rw [Function.update_self] at h0 hm ⊢
      rw [if_pos (⟨h0,hm⟩ : 0≤b.idleEnv.newPid ∧ b.idleEnv.newPid<M.maxProcs)]
      split
      · rw [Function.update_of_ne (fun he => hb (by omega)),Function.update_self]
      · rw [Function.update_self]
    · rw [Function.update_of_ne hp] at hx
      cases hx

/-- KernelContextSwitch switches, and a fork gets an identifier that no process
has. -/
def DelayEnv (M : Machine) (s : Kernel) (env : Env) (input : Input) : Prop :=
  env.switchOk=true ∧ (Forks M input → FreshPid env s)

/-- States of the runs with these answers. -/
abbrev DelayRun (M : Machine) : Kernel → Prop :=
  Run M (fun b => b.idleEnv.newPid≠b.initEnv.newPid) (DelayEnv M)

/-- A run with such delays is a run of the kernel. -/
theorem DelayRun.reachable (h : DelayRun M s) : Reachable M s :=
  Run.mono (fun _ _ => trivial) (fun _ _ _ h => h.1) h

/-- In all of them the process table is complete. -/
theorem run_listed (h : DelayRun M s) : Listed M s := by
  induction h with
  | boot b hb hu =>
    obtain ⟨p,q,pfn,pfns,m₁,m₂,m,v,u,hf,he⟩ := kernelStart_eq hu
    rw [he]
    exact booted_listed hf.ne hb
  | step env input hr he hok ih => exact (kernelStep_counted input ih hok.2).listed

end Table

section Wakings

variable {d n : ℕ}

/-- A process sleeps until a deadline. -/
structure Asleep (d : ℕ) (p : PcbPtr) (s : Kernel) : Prop where
  /-- The sleeping process exists. -/
  live : s.live p=true
  /-- The sleeping process is blocked. -/
  blocked : s.state p=.blocked
  /-- The deadline is the one set by the call. -/
  deadline : s.delayUntil p=d

/-- A process has been made ready: it is on the ready queue or has been picked
from it. -/
def MadeReady (p : PcbPtr) (s : Kernel) : Prop :=
  (s.state p=.ready ∧ p∈s.readyQueue) ∨ (s.state p=.running ∧ s.currentProcess=p)

/-- Making one process ready keeps the state of another and only adds to the
ready queue. -/
theorem makeReady_other (hp : p≠q) :
    (processMakeReady s q).state p=s.state p ∧ s.readyQueue⊆(processMakeReady s q).readyQueue := by
  unfold processMakeReady
  split
  · exact ⟨rfl,List.Subset.refl _⟩
  · split
    · exact ⟨Function.update_of_ne hp ..,List.Subset.refl _⟩
    · exact ⟨Function.update_of_ne hp ..,List.subset_append_left ..⟩

/-- Making a process ready that is no zombie. -/
theorem makeReady_self (h0 : p≠0) (hi : p≠s.idleProcess) (hz : s.state p≠.zombie) :
    (processMakeReady s p).state p=.ready ∧ p∈(processMakeReady s p).readyQueue := by
  unfold processMakeReady
  rw [if_neg (by simp [h0,hi,hz])]
  split
  · rename_i hm
    exact ⟨Function.update_self ..,hm⟩
  · exact ⟨Function.update_self ..,List.mem_append_right _ (List.mem_singleton.2 rfl)⟩

/-- ProcessMakeReady leaves the processes, their deadlines and the clock alone. -/
theorem makeReady_rest (s : Kernel) (q : PcbPtr) :
    (processMakeReady s q).live=s.live ∧ (processMakeReady s q).delayUntil=s.delayUntil ∧
      (processMakeReady s q).clockTicks=s.clockTicks ∧
      (processMakeReady s q).idleProcess=s.idleProcess ∧
      (processMakeReady s q).processTable=s.processTable ∧
      (processMakeReady s q).currentProcess=s.currentProcess := by
  unfold processMakeReady
  split
  · exact ⟨rfl,rfl,rfl,rfl,rfl,rfl⟩
  · split
    · exact ⟨rfl,rfl,rfl,rfl,rfl,rfl⟩
    · exact ⟨rfl,rfl,rfl,rfl,rfl,rfl⟩

/-- What a round of ProcessWakeDelayed leaves alone. -/
theorem wakeIfOver_rest (s : Kernel) (i : ℕ) :
    (wakeIfOver s i).live=s.live ∧ (wakeIfOver s i).clockTicks=s.clockTicks ∧
      (wakeIfOver s i).idleProcess=s.idleProcess ∧
      (wakeIfOver s i).processTable=s.processTable ∧
      (wakeIfOver s i).currentProcess=s.currentProcess := by
  unfold wakeIfOver
  split
  · obtain ⟨hl,_,hc,hi,ht,hp⟩ := makeReady_rest {s with
      delayUntil := Function.update s.delayUntil (s.processTable i) 0
      log := s.log++[.woken (s.processTable i)
        (.delay (s.delayUntil (s.processTable i)) s.clockTicks)]} (s.processTable i)
    exact ⟨hl,hc,hi,ht,hp⟩
  · exact ⟨rfl,rfl,rfl,rfl,rfl⟩

/-- A round for another process. -/
theorem wakeIfOver_other (hp : p≠s.processTable i) :
    (wakeIfOver s i).state p=s.state p ∧ (wakeIfOver s i).delayUntil p=s.delayUntil p ∧
      s.readyQueue⊆(wakeIfOver s i).readyQueue := by
  unfold wakeIfOver
  split
  · obtain ⟨hs,hq⟩ := makeReady_other (s := {s with
      delayUntil := Function.update s.delayUntil (s.processTable i) 0
      log := s.log++[.woken (s.processTable i)
        (.delay (s.delayUntil (s.processTable i)) s.clockTicks)]}) hp
    refine ⟨hs,?_,hq⟩
    rw [(makeReady_rest _ _).2.1]
    exact Function.update_of_ne hp ..
  · exact ⟨rfl,rfl,List.Subset.refl _⟩

/-- A process whose deadline has not come sleeps on. -/
theorem wakeLoop_early (l : List ℕ) (h : Asleep d p s) (hd : s.clockTicks<d) :
    Asleep d p (l.foldl wakeIfOver s) := by
  induction l generalizing s with
  | nil => exact h
  | cons i rest ih =>
    obtain ⟨hl,hc,_⟩ := wakeIfOver_rest s i
    refine ih ?_ (by rw [hc]; exact hd)
    by_cases hp : p=s.processTable i
    · have hn : ¬DelayOver s (s.processTable i) := by
        rintro ⟨_,_,_,hle⟩
        rw [←hp,h.deadline] at hle
        omega
      unfold wakeIfOver
      rw [if_neg hn]
      exact h
    · obtain ⟨hs,hu,_⟩ := wakeIfOver_other hp
      exact ⟨by rw [hl]; exact h.live,hs.trans h.blocked,hu.trans h.deadline⟩

/-- A process that is ready stays so. -/
theorem wakeLoop_ready (l : List ℕ) (hs : s.state p=.ready) (hq : p∈s.readyQueue) :
    (l.foldl wakeIfOver s).state p=.ready ∧ p∈(l.foldl wakeIfOver s).readyQueue := by
  induction l generalizing s with
  | nil => exact ⟨hs,hq⟩
  | cons i rest ih =>
    by_cases hp : p=s.processTable i
    · have hn : ¬DelayOver s (s.processTable i) := by
        rintro ⟨_,hb,_⟩
        rw [←hp,hs] at hb
        cases hb
      have hsame : wakeIfOver s i=s := if_neg hn
      rw [List.foldl_cons,hsame]
      exact ih hs hq
    · obtain ⟨hst,_,hsub⟩ := wakeIfOver_other hp
      exact ih (hst.trans hs) (hsub hq)

/-- A process in the table whose deadline has come is made ready. -/
theorem wakeLoop_over {l : List ℕ} (hi : i∈l) (ht : s.processTable i=p) (h0 : p≠0)
    (hidle : p≠s.idleProcess) (h : Asleep d p s) (hd : 0<d) (hle : d≤ s.clockTicks) :
    (l.foldl wakeIfOver s).state p=.ready ∧ p∈(l.foldl wakeIfOver s).readyQueue := by
  induction l generalizing s with
  | nil => cases hi
  | cons j rest ih =>
    rw [List.foldl_cons]
    by_cases hp : p=s.processTable j
    · have hover : DelayOver s p := by
        refine ⟨h0,h.blocked,?_,?_⟩
        · rw [h.deadline]
          omega
        · rw [h.deadline]
          exact hle
      have hround : (wakeIfOver s j).state p=.ready ∧ p∈(wakeIfOver s j).readyQueue := by
        unfold wakeIfOver
        rw [←hp,if_pos hover]
        refine makeReady_self h0 hidle (fun hz => ?_)
        cases h.blocked.symm.trans hz
      exact wakeLoop_ready rest hround.1 hround.2
    · have hij : i∈rest := by
        rcases List.mem_cons.1 hi with rfl|hi
        · exact absurd ht.symm hp
        · exact hi
      obtain ⟨hl,hc,hid,htab,_⟩ := wakeIfOver_rest s j
      obtain ⟨hs,hu,_⟩ := wakeIfOver_other hp
      refine ih hij (by rw [htab]; exact ht) (by rw [hid]; exact hidle) ?_ (by rw [hc]; exact hle)
      exact ⟨by rw [hl]; exact h.live,hs.trans h.blocked,hu.trans h.deadline⟩

/-- The current process is left by all rounds. -/
theorem wakeLoop_current (l : List ℕ) (s : Kernel) :
    (l.foldl wakeIfOver s).currentProcess=s.currentProcess := by
  induction l generalizing s with
  | nil => rfl
  | cons i rest ih => exact (ih _).trans (wakeIfOver_rest s i).2.2.2.2

/-- A process that sleeps is not picked. -/
theorem dispatchNext_state (hp : nextProcess s≠p) :
    (dispatchNext M env s).state p=s.state p ∧ (dispatchNext M env s).live=s.live ∧
      (dispatchNext M env s).delayUntil=s.delayUntil := by
  unfold dispatchNext processSwitch
  have hother : ∀ v,Function.update s.state (nextProcess s) v p=s.state p :=
    fun v => Function.update_of_ne (Ne.symm hp) ..
  split
  · exact ⟨rfl,rfl,rfl⟩
  · split
    · exact ⟨hother _,rfl,rfl⟩
    · exact ⟨hother _,rfl,rfl⟩

/-- The current process is not marked when it is picked again. -/
theorem dispatchNext_current (hp : nextProcess s=s.currentProcess) :
    (dispatchNext M env s).state=s.state ∧ (dispatchNext M env s).live=s.live ∧
      (dispatchNext M env s).delayUntil=s.delayUntil := by
  unfold dispatchNext processSwitch
  rw [if_pos (Or.inr hp)]
  exact ⟨rfl,rfl,rfl⟩

/-- A current process that blocks before its deadline sleeps behind ProcessSchedule. -/
theorem schedule_early (h : Asleep d p s) (hp : s.currentProcess=p) (hd : s.clockTicks<d) :
    Asleep d p (processSchedule M env s) := by
  have hw := wakeLoop_early (List.range M.maxProcs) h hd
  have hcur := (wakeLoop_current (List.range M.maxProcs) s).trans hp
  have hq : requeueCurrent (processWakeDelayed M s)=processWakeDelayed M s := by
    refine if_neg ?_
    rintro ⟨_,_,hr⟩
    unfold processWakeDelayed at hr
    rw [hcur,hw.blocked] at hr
    cases hr
  unfold processSchedule
  rw [hq]
  change Asleep d p (processWakeDelayed M s) at hw
  by_cases hnext : nextProcess (processWakeDelayed M s)=p
  · obtain ⟨hst,hl,hu⟩ := @dispatchNext_current M env _ (hnext.trans hcur.symm)
    exact ⟨by rw [hl]; exact hw.live,by rw [hst]; exact hw.blocked,by rw [hu]; exact hw.deadline⟩
  · obtain ⟨hst,hl,hu⟩ := @dispatchNext_state M env _ _ hnext
    exact ⟨by rw [hl]; exact hw.live,hst.trans hw.blocked,by rw [hu]; exact hw.deadline⟩

/-- Requeueing the current process leaves ready processes ready. -/
theorem requeue_ready (hs : s.state p=.ready) (hq : p∈s.readyQueue) :
    (requeueCurrent s).state p=.ready ∧ p∈(requeueCurrent s).readyQueue := by
  unfold requeueCurrent
  split
  · rename_i hr
    have hp : p≠s.currentProcess := by
      rintro rfl
      rw [hs] at hr
      cases hr.2.2
    obtain ⟨hst,hsub⟩ := makeReady_other hp
    exact ⟨hst.trans hs,hsub hq⟩
  · exact ⟨hs,hq⟩

/-- A sleeper in the table is made ready by the ProcessSchedule at its deadline. -/
theorem schedule_over (hi : i<M.maxProcs) (ht : s.processTable i=p) (h0 : p≠0)
    (hidle : p≠s.idleProcess) (h : Asleep d p s) (hd : 0<d) (hle : d≤ s.clockTicks) :
    (processSchedule M env s).state p≠.blocked ∧
      (p≠s.currentProcess → env.switchOk=true → MadeReady p (processSchedule M env s)) := by
  obtain ⟨hws,hwq⟩ := wakeLoop_over (List.mem_range.2 hi) ht h0 hidle h hd hle
  obtain ⟨hs,hq⟩ := requeue_ready hws hwq
  have hcur : (requeueCurrent (processWakeDelayed M s)).currentProcess=s.currentProcess := by
    refine Eq.trans ?_ (wakeLoop_current (List.range M.maxProcs) s)
    unfold requeueCurrent
    split
    · exact (makeReady_rest _ _).2.2.2.2.2
    · rfl
  unfold processSchedule
  unfold processWakeDelayed at hcur ⊢
  generalize requeueCurrent ((List.range M.maxProcs).foldl wakeIfOver s)=w at hs hq hcur ⊢
  by_cases hnext : nextProcess w=p
  · constructor
    · unfold dispatchNext processSwitch
      split
      · intro hb
        cases hs.symm.trans hb
      · split
        · intro hb
          dsimp only [kcSwitch] at hb
          rw [hnext,Function.update_self] at hb
          cases hb
        · intro hb
          dsimp only at hb
          rw [hnext,Function.update_self] at hb
          cases hb
    · intro hpc hsw
      have hn : ¬(nextProcess w=0 ∨ nextProcess w=w.currentProcess) := by
        rw [hnext,hcur]
        rintro (h|h)
        · exact h0 h
        · exact hpc h
      unfold dispatchNext processSwitch
      rw [if_neg hn,if_pos hsw]
      refine .inr ⟨?_,hnext⟩
      dsimp only [kcSwitch]
      rw [hnext,Function.update_self]
  · obtain ⟨hst,_,_⟩ := @dispatchNext_state M env _ _ hnext
    have htail : (dispatchNext M env w).readyQueue=w.readyQueue.tail := by
      unfold dispatchNext processSwitch
      split
      · rfl
      · split
        · rfl
        · rfl
    refine ⟨fun hb => ?_,fun _ _ => .inl ⟨hst.trans hs,?_⟩⟩
    · cases (hst.trans hs).symm.trans hb
    · rw [htail]
      unfold nextProcess at hnext
      cases hr : w.readyQueue with
      | nil =>
        rw [hr] at hq
        cases hq
      | cons x rest =>
        rw [hr] at hnext hq
        rcases List.mem_cons.1 hq with rfl|hm
        · exact absurd (if_neg h0) hnext
        · exact hm

end Wakings

section Sleeps

variable {d n k T : ℕ} {s₁ : Kernel}

/-- Runs that go on from a state, with the number of clock traps in them. -/
inductive Since (M : Machine) (s₁ : Kernel) : ℕ → Kernel → Prop
  /-- Behind the call no clock trap has come. -/
  | call : Since M s₁ 0 s₁
  /-- One more entry adds its clock trap, if it is one. -/
  | step {n : ℕ} {t : Kernel} (env : Env) (input : Input) (h : Since M s₁ n t)
      (he : input.Enabled t) (hok : DelayEnv M t env input) :
      Since M s₁ (n+clockTraps input) (kernelStep M env t input)

/-- What goes on from a run with such delays is one. -/
theorem Since.run (hr : DelayRun M s₁) (h : Since M s₁ n t) : DelayRun M t := by
  induction h with
  | call => exact hr
  | step env input _ he hok ih => exact .step env input ih he hok

/-- The ticks that are counted. -/
theorem Since.ticks (hr : DelayRun M s₁) (h : Since M s₁ n t) :
    tickCount t.log=tickCount s₁.log+n := by
  induction h with
  | call => rfl
  | step env input h he hok ih =>
    rw [(kernelStep_counted input (run_listed (h.run hr)) hok.2).ticks,ih]
    exact Nat.add_assoc ..

/-- The clock of a reachable state. -/
theorem reachable_clock (h : Reachable M s) : Settled M s ∧ ClockOk s.clockTicks s.log := by
  obtain ⟨hs,hr⟩ := reachable_invariant (P := ReasonOk)
    (fun b p q pfn pfns m₁ m₂ m v u hf => booted_reasonOk)
    (fun c s t hc hp hop => op_reasonOk hc hp hop) h
  exact ⟨hs,hr.clock⟩

/-- No entry wakes a sleeper before its deadline. -/
theorem asleep_step {input : Input} (hr : DelayRun M s) (he : input.Enabled s)
    (hok : DelayEnv M s env input) (ha : Asleep d p s) (hd : k%2^32+T=d) (hlt : d<2^32)
    (h0 : 0<d) (hk : k≤tickCount s.log)
    (hn : tickCount (kernelStep M env s input).log<k+T) :
    Asleep d p (kernelStep M env s input) := by
  obtain ⟨hs,_⟩ := reachable_clock hr.reachable
  obtain ⟨_,hclock⟩ := reachable_clock (DelayRun.reachable (.step env input hr he hok))
  have hall : StepAllowed M (fun _ => True) s env input := fun _ _ => trivial
  obtain ⟨hops,hs'⟩ := kernelStep_done hs hok.1 he hall
  obtain ⟨l,hl,hkeep⟩ := ops_goes hs.toCoherent hops
  have hreason : BlockedBy s p .delay := by
    change s.delayUntil p≠0
    rw [ha.deadline]
    omega
  rcases hkeep p .delay ha.live hreason with ⟨hlive,hu,hw⟩|⟨now,hm⟩
  · exact ⟨hlive,hs'.block.reasons.blocked _ _ hlive hw,hu.trans ha.deadline⟩
  · exfalso
    rw [ha.deadline] at hm
    obtain ⟨past,rest,he⟩ := List.append_of_mem hm
    have hpre : (s.log++past)++[.woken p (.delay d now)]<+:(kernelStep M env s input).log := by
      rw [hl,he]
      exact ⟨rest,by simp⟩
    obtain ⟨hdue,hnow⟩ := hclock.due _ _ hpre
    have hle : tickCount (s.log++past)≤tickCount (kernelStep M env s input).log := by
      rw [hl,he]
      unfold tickCount
      simp only [List.countP_append]
      omega
    have hge : tickCount s.log≤tickCount (s.log++past) := by
      unfold tickCount
      rw [List.countP_append]
      omega
    omega

/-- A sleeper sleeps on until as many clock traps have been taken. -/
theorem since_asleep (hr : DelayRun M s₁) (ha : Asleep d p s₁)
    (hd : tickCount s₁.log%2^32+T=d) (hlt : d<2^32) (h0 : 0<T) (h : Since M s₁ n t) (hn : n<T) :
    Asleep d p t ∧ t.pid p=s₁.pid p := by
  induction h with
  | call => exact ⟨ha,rfl⟩
  | step env input h he hok ih =>
    obtain ⟨ha',hpid⟩ := ih (by omega)
    have hcounted := kernelStep_counted input (run_listed (h.run hr)) hok.2
    have hticks := h.ticks hr
    have hafter := hcounted.ticks
    refine ⟨asleep_step (h.run hr) he hok ha' hd hlt ?_ ?_ ?_,(hcounted.pid _ ha'.live).trans hpid⟩
    · omega
    · omega
    · omega

/-- The clock trap at the deadline makes the sleeper ready. -/
theorem asleep_over (hr : DelayRun M s) (hu : s.cpu=.user) (hok : DelayEnv M s env (.trap u))
    (hv : u.vector=.clock) (ha : Asleep d p s) (h0 : 0<d) (hd : (s.clockTicks+1)%2^32=d)
    (hp0 : 0≤ s.pid p) (hpm : s.pid p<M.maxProcs) :
    MadeReady p (kernelStep M env s (.trap u)) := by
  obtain ⟨hs,_⟩ := reachable_clock hr.reachable
  have hreason : BlockedBy s p .delay := by
    change s.delayUntil p≠0
    rw [ha.deadline]
    omega
  have hcur : p≠s.currentProcess := ne_current hs.toCoherent (hs.user hu).toRunnable ha.live hreason
  have hidle : p≠s.idleProcess := by
    rintro rfl
    cases hs.ready.idle_running.symm.trans ha.blocked
  have hnull : p≠0 := by
    rintro rfl
    cases hs.ready.null.symm.trans ha.live
  have htable : s.processTable (s.pid p).toNat=p := run_listed hr p ha.live hp0 hpm
  have hsave : saveContext u s=s.setUserContext s.currentProcess u :=
    if_pos (hs.ready.ne_null hs.ready.current_live)
  have hstep : kernelStep M env s (.trap u)=trapClock M env u s := by
    unfold kernelStep trap
    dsimp only
    rw [hv]
  have hsleep : Asleep d p ((tickClock (s.setUserContext s.currentProcess u)).setKernelContext
      s.currentProcess ⟨s.currentProcess,.clock⟩) := ⟨ha.live,ha.blocked,ha.deadline⟩
  rw [hstep]
  unfold trapClock
  rw [hsave]
  have hin : (s.pid p).toNat<M.maxProcs := by omega
  exact (schedule_over (s := (tickClock (s.setUserContext s.currentProcess u)).setKernelContext
    s.currentProcess ⟨s.currentProcess,.clock⟩) hin htable hnull hidle hsleep h0 hd.ge).2 hcur hok.1

/-- A process is made ready by the given clock trap and by no earlier one. -/
def SleepsExactly (M : Machine) (T : ℕ) (p : PcbPtr) (s₁ : Kernel) : Prop :=
  ∀ n t,Since M s₁ n t → (n<T → t.state p=.blocked ∧ p∉t.readyQueue) ∧
    (n+1=T → ∀ env u,t.cpu=.user → DelayEnv M t env (.trap u) → u.vector=.clock →
      MadeReady p (kernelStep M env t (.trap u)))

/-- The entry of Delay blocks the caller and schedules. -/
theorem delay_step (hv : u.vector=.kernel) (hc : M.syscallOf u.code=.delay) (ht : 0<u.int 0)
    (h0 : s.currentProcess≠0) (hi : s.currentProcess≠s.idleProcess) :
    kernelStep M env s (.trap u)=processSchedule M env
      (blockForDelay ((s.clockTicks+(u.int 0).toNat)%2^32) ⟨s.currentProcess,.delay⟩ u
        (s.setUserContext s.currentProcess u)) := by
  have hsave : saveContext u s=s.setUserContext s.currentProcess u := if_pos h0
  have hcall : kernelStep M env s (.trap u)=
      finish s.currentProcess (sysDelay M env s.currentProcess (u.int 0) u (saveContext u s)) := by
    unfold kernelStep trap trapKernel syscallDispatch
    dsimp only
    rw [hv]
    dsimp only
    rw [hc]
  rw [hcall,hsave]
  unfold sysDelay
  rw [if_neg (by omega),if_neg (by omega),if_neg]
  · rfl
  · rintro (h|h)
    · exact h0 h
    · exact hi h

/-- The call blocks until the deadline. -/
theorem delay_blocks (hr : DelayRun M s) {d : ℕ} : Asleep d s.currentProcess
    (blockForDelay d ⟨s.currentProcess,.delay⟩ u (s.setUserContext s.currentProcess u)) :=
  ⟨(reachable_clock hr.reachable).1.ready.current_live,Function.update_self ..,
    Function.update_self ..⟩

/-- If the deadline lies behind the wrap-around the call does not block. -/
theorem delay_late (hr : DelayRun M s) (hv : u.vector=.kernel) (hc : M.syscallOf u.code=.delay)
    (ht : 0<u.int 0) (ht' : u.int 0<2^31) (hi : s.currentProcess≠s.idleProcess)
    (hp0 : 0≤ s.pid s.currentProcess) (hpm : s.pid s.currentProcess<M.maxProcs)
    (hgt : 2^32<s.clockTicks+(u.int 0).toNat) :
    (kernelStep M env s (.trap u)).state s.currentProcess≠.blocked := by
  obtain ⟨hs,hclock⟩ := reachable_clock hr.reachable
  have h0 : s.currentProcess≠0 := hs.ready.ne_null hs.ready.current_live
  have hclk := hclock.count
  have hin : (s.pid s.currentProcess).toNat<M.maxProcs := by omega
  have htable : s.processTable (s.pid s.currentProcess).toNat=s.currentProcess :=
    run_listed hr _ hs.ready.current_live hp0 hpm
  rw [delay_step hv hc ht h0 hi]
  refine (schedule_over (s := blockForDelay _ _ u (s.setUserContext _ u)) hin htable h0 hi
    (delay_blocks hr) ?_ ?_).1
  · omega
  · change (s.clockTicks+(u.int 0).toNat)%2^32≤ s.clockTicks
    omega

/-- A process that calls Delay before the clock wraps around is made ready by
the clock trap it asked for and by no earlier one, whatever the other processes
do. If the deadline lies behind the wrap-around the call does not block at all. -/
theorem delay_exact (hr : DelayRun M s) (hu : s.cpu=.user) (hok : DelayEnv M s env (.trap u))
    (hv : u.vector=.kernel) (hc : M.syscallOf u.code=.delay) (ht : 0<u.int 0)
    (ht' : u.int 0<2^31) (hi : s.currentProcess≠s.idleProcess)
    (hp0 : 0≤ s.pid s.currentProcess) (hpm : s.pid s.currentProcess<M.maxProcs) :
    (s.clockTicks+(u.int 0).toNat<2^32 →
      SleepsExactly M (u.int 0).toNat s.currentProcess (kernelStep M env s (.trap u))) ∧
    (2^32<s.clockTicks+(u.int 0).toNat →
      (kernelStep M env s (.trap u)).state s.currentProcess≠.blocked) := by
  obtain ⟨hs,hclock⟩ := reachable_clock hr.reachable
  have h0 : s.currentProcess≠0 := hs.ready.ne_null hs.ready.current_live
  have hrun : DelayRun M (kernelStep M env s (.trap u)) := .step env _ hr hu hok
  have hcount := (kernelStep_counted (.trap u) (run_listed hr) hok.2).ticks
  have hnone : clockTraps (.trap u)=0 := by
    unfold clockTraps
    dsimp only
    rw [hv]
    rfl
  have hclk := hclock.count
  rw [hnone,Nat.add_zero] at hcount
  have hstep : kernelStep M env s (.trap u)=processSchedule M env
      (blockForDelay ((s.clockTicks+(u.int 0).toNat)%2^32) ⟨s.currentProcess,.delay⟩ u
        (s.setUserContext s.currentProcess u)) := delay_step hv hc ht h0 hi
  constructor
  · intro hlt
    have hd : (s.clockTicks+(u.int 0).toNat)%2^32=s.clockTicks+(u.int 0).toNat :=
      Nat.mod_eq_of_lt hlt
    have hfirst : Asleep (s.clockTicks+(u.int 0).toNat) s.currentProcess
        (kernelStep M env s (.trap u)) := by
      rw [hd] at hstep
      rw [hstep]
      refine schedule_early (delay_blocks hr) rfl ?_
      change s.clockTicks<s.clockTicks+(u.int 0).toNat
      omega
    have hpid : (kernelStep M env s (.trap u)).pid s.currentProcess=s.pid s.currentProcess :=
      (kernelStep_counted (.trap u) (run_listed hr) hok.2).pid _ hs.ready.current_live
    have hticks₁ : tickCount (kernelStep M env s (.trap u)).log%2^32+(u.int 0).toNat=
        s.clockTicks+(u.int 0).toNat := by
      rw [hcount,hclk]
    intro n t hsince
    obtain ⟨hst,hct⟩ := reachable_clock (hsince.run hrun).reachable
    have hticks := hsince.ticks hrun
    refine ⟨fun hn => ?_,fun hn env' u' hu' hok' hv' => ?_⟩
    · obtain ⟨ha,_⟩ := since_asleep hrun hfirst hticks₁ hlt (by omega) hsince hn
      refine ⟨ha.blocked,fun hm => ?_⟩
      cases ha.blocked.symm.trans (hst.ready.mem _ hm).2.2
    · obtain ⟨ha,hpid'⟩ := since_asleep hrun hfirst hticks₁ hlt (by omega) hsince (by omega)
      have hclk' := hct.count
      refine asleep_over (hsince.run hrun) hu' hok' hv' ha (by omega) (by omega) ?_ ?_
      · rw [hpid',hpid]
        exact hp0
      · rw [hpid',hpid]
        exact hpm
  · exact delay_late hr hv hc ht ht' hi hp0 hpm

/-- A call of Delay for two ticks. -/
def delayContext : UserContext := sampleContext .kernel 7 2 0 0

/-- The initial process sleeps for two ticks. -/
theorem delay_exact_sample : ∃ s,DelayRun sampleMachine s ∧
    SleepsExactly sampleMachine 2 2
      (kernelStep sampleMachine (sampleEnv 0 0) s (.trap delayContext)) := by
  have hboot : DelayRun sampleMachine (kernelStart sampleMachine sampleBoot) :=
    .boot sampleBoot (by decide) sampleBoot_user
  have hcur : (kernelStart sampleMachine sampleBoot).currentProcess=2 := by decide +kernel
  have hidle : (kernelStart sampleMachine sampleBoot).idleProcess=1 := by decide +kernel
  have hpid : (kernelStart sampleMachine sampleBoot).pid 2=1 := by decide +kernel
  have hclk : (kernelStart sampleMachine sampleBoot).clockTicks=0 := by decide +kernel
  have hint : delayContext.int 0=2 := by decide
  have hok : DelayEnv sampleMachine (kernelStart sampleMachine sampleBoot) (sampleEnv 0 0)
      (.trap delayContext) := ⟨rfl,fun hf => absurd hf.2 (by decide)⟩
  have hexact := (delay_exact hboot sampleBoot_user hok rfl rfl (by rw [hint]; decide)
    (by rw [hint]; decide) (by rw [hcur,hidle]; decide) (by rw [hcur,hpid]; decide)
    (by rw [hcur,hpid]; decide)).1
    (by rw [hclk,hint]; decide)
  rw [hint,hcur] at hexact
  exact ⟨_,hboot,hexact⟩

end Sleeps

section Turns

/-- Two processes take turns and no process sleeps. -/
structure Turns (p q : PcbPtr) (s : Kernel) : Prop where
  /-- The sample state runs in user mode. -/
  user : s.cpu=.user
  /-- The idle process of the sample is process 1. -/
  idle : s.idleProcess=1
  /-- The first process runs. -/
  current : s.currentProcess=p
  /-- The other one is next. -/
  queue : s.readyQueue=[q]
  /-- The first process is marked running. -/
  running : s.state p=.running
  /-- The other one was interrupted by the clock. -/
  saved : (s.kernelContext q).point=.clock
  /-- No process of the table sleeps. -/
  awake : ∀ i<16,s.delayUntil (s.processTable i)=0
  /-- The two processes have the identifiers 1 and 2. -/
  pid : s.pid 2=1 ∧ s.pid 3=2

/-- If nobody sleeps ProcessWakeDelayed does nothing. -/
theorem wakeLoop_awake {l : List ℕ} (h : ∀ i∈l,s.delayUntil (s.processTable i)=0) :
    l.foldl wakeIfOver s=s := by
  induction l with
  | nil => rfl
  | cons i rest ih =>
    have hn : ¬DelayOver s (s.processTable i) := fun ho => ho.2.2.1 (h i List.mem_cons_self)
    have hround : wakeIfOver s i=s := if_neg hn
    rw [List.foldl_cons,hround]
    exact ih (fun j hj => h j (List.mem_cons_of_mem _ hj))

/-- ProcessSchedule gives the processor to the other process. -/
theorem schedule_turn (hs : env.switchOk=true) (h : Turns p q s) (hm : M.maxProcs=16)
    (hp : p≠0 ∧ p≠1) (hq : q≠0 ∧ q≠1) (hpq : p≠q) : ∃ m l,processSchedule M env s={s with
      currentProcess := q
      readyQueue := [p]
      state := Function.update (Function.update s.state p .ready) q .running
      memory := m
      cpu := .kernel
      log := l} := by
  have hw : processWakeDelayed M s=s := by
    refine wakeLoop_awake (fun i hi => h.awake i ?_)
    rw [←hm]
    exact List.mem_range.1 hi
  have hreq : requeueCurrent s=markReady s p := by
    unfold requeueCurrent
    rw [h.current,if_pos ⟨hp.1,by rw [h.idle]; exact hp.2,h.running⟩]
    refine processMakeReady_eq hp.1 ?_ ?_ ?_
    · rw [h.idle]
      exact hp.2
    · rw [h.running]
      exact fun hz => by cases hz
    · rw [h.queue]
      exact fun hm => hpq (List.mem_singleton.1 hm)
  have hready : (markReady s p).readyQueue=[q,p] := by
    unfold markReady
    rw [h.queue]
    rfl
  have hnext : nextProcess (markReady s p)=q := by
    unfold nextProcess
    rw [hready]
    exact if_neg hq.1
  have hswitch : ∀ w : Kernel,w.currentProcess=p → processSwitch M env q w=
      kcSwitch M q {w with state := Function.update w.state q .running} := by
    intro w hwp
    unfold processSwitch
    rw [if_neg (by rw [hwp]; rintro (h|h); exacts [hq.1 h,hpq h.symm]),if_pos hs]
  unfold processSchedule
  rw [hw,hreq]
  unfold dispatchNext
  rw [hnext,hready,hswitch]
  · exact ⟨_,_,rfl⟩
  · exact h.current

/-- The state in which the clock trap of the running process schedules. -/
def interrupted (s : Kernel) : Kernel :=
  (tickClock (s.setUserContext s.currentProcess (sampleContext .clock 0 0 0 0))).setKernelContext
    s.currentProcess ⟨s.currentProcess,.clock⟩

/-- A clock trap gives the processor to the other process. -/
theorem turns_step (hr : DelayRun sampleMachine s) (h : Turns p q s) (hp : p≠0 ∧ p≠1)
    (hq : q≠0 ∧ q≠1) (hpq : p≠q) : ∃ t,DelayRun sampleMachine t ∧ Turns q p t ∧
      t.clockTicks=(s.clockTicks+1)%2^32 := by
  have hsave : saveContext (sampleContext .clock 0 0 0 0) s=
      s.setUserContext s.currentProcess (sampleContext .clock 0 0 0 0) := by
    refine if_pos ?_
    rw [h.current]
    exact hp.1
  have hturn : Turns p q (interrupted s) := by
    refine ⟨h.user,h.idle,h.current,h.queue,h.running,?_,h.awake,h.pid⟩
    dsimp only [interrupted,Kernel.setKernelContext]
    rw [h.current,Function.update_of_ne hpq.symm]
    exact h.saved
  have hok : (sampleEnv 0 0).switchOk=true := rfl
  obtain ⟨m,l,ht⟩ := schedule_turn (M := sampleMachine) hok hturn rfl hp hq hpq
  have hpick : kernelStep sampleMachine (sampleEnv 0 0) s (.trap (sampleContext .clock 0 0 0 0))=
      processSchedule sampleMachine (sampleEnv 0 0) (interrupted s) := by
    unfold interrupted
    rw [←hsave]
    rfl
  have hfirst : DelayRun sampleMachine
      (processSchedule sampleMachine (sampleEnv 0 0) (interrupted s)) := by
    rw [←hpick]
    exact .step _ _ hr h.user ⟨rfl,fun hf => by cases hf.1⟩
  rw [ht] at hfirst
  have hsecond := Run.step (sampleEnv 0 0) .resume hfirst rfl ⟨rfl,fun hf => hf.elim⟩
  refine ⟨_,hsecond,?_⟩
  unfold kernelStep resume continueAt
  dsimp only
  rw [hturn.saved]
  have hself : ((interrupted s).kernelContext p).point=.clock := by
    dsimp only [interrupted,Kernel.setKernelContext]
    rw [h.current,Function.update_self]
  refine ⟨⟨rfl,h.idle,rfl,rfl,Function.update_self ..,?_,h.awake,h.pid⟩,rfl⟩
  refine Eq.trans (congrArg KernelContext.point ?_) hself
  exact Function.update_of_ne hpq ..

/-- Every later value of the clock is reached while two processes take turns. -/
theorem turns_reached (hr : DelayRun sampleMachine s) (h : Turns 3 2 s) (n : ℕ) :
    ∃ t p q,DelayRun sampleMachine t ∧ Turns p q t ∧ (p=2 ∧ q=3 ∨ p=3 ∧ q=2) ∧
      t.clockTicks%2^32=(s.clockTicks+n)%2^32 := by
  induction n with
  | zero => exact ⟨s,3,2,hr,h,.inr ⟨rfl,rfl⟩,rfl⟩
  | succ n ih =>
    obtain ⟨t,p,q,hrt,ht,hpq,hc⟩ := ih
    have hnext : ∃ t',DelayRun sampleMachine t' ∧ Turns q p t' ∧
        t'.clockTicks=(t.clockTicks+1)%2^32 := by
      rcases hpq with ⟨rfl,rfl⟩|⟨rfl,rfl⟩
      · exact turns_step hrt ht (by decide) (by decide) (by decide)
      · exact turns_step hrt ht (by decide) (by decide) (by decide)
    obtain ⟨t',hr',ht',hc'⟩ := hnext
    refine ⟨t',q,p,hr',ht',hpq.symm.imp And.symm And.symm,?_⟩
    rw [hc']
    omega

/-- The initial process of the sample forks in a run. -/
theorem forked_run : DelayRun sampleMachine (kernelStep sampleMachine (sampleEnv 3 2)
    (kernelStart sampleMachine sampleBoot) (.trap (sampleContext .kernel 1 0 0 0))) := by
  have hboot : DelayRun sampleMachine (kernelStart sampleMachine sampleBoot) :=
    .boot sampleBoot (by decide) sampleBoot_user
  refine .step _ _ hboot sampleBoot_user ⟨rfl,fun _ q hq he => ?_⟩
  have hentry := run_listed hboot q hq
  have hs := (reachable_clock hboot.reachable).1
  rw [show (kernelStart sampleMachine sampleBoot).pid q=2 from he] at hentry
  have hnone : (kernelStart sampleMachine sampleBoot).processTable 2=0 := by decide +kernel
  have h0 : q=0 := (hentry (by decide) (by decide)).symm.trans hnone
  exact hs.ready.ne_null hq h0

/-- The test that nothing fails and nobody forks. -/
def quietTest (_ : Kernel) (env : Env) : Input → Bool
  | .trap u => env.switchOk && decide (u.vector≠.kernel)
  | .resume => env.switchOk

/-- A step that passes the test meets the condition of the run. -/
theorem of_quietTest (s : Kernel) (env : Env) (input : Input) (h : quietTest s env input=true) :
    DelayEnv sampleMachine s env input := by
  cases input with
  | trap u =>
    obtain ⟨hs,hv⟩ := Bool.and_eq_true_iff.1 h
    exact ⟨hs,fun hf => absurd hf.1 (of_decide_eq_true hv)⟩
  | resume => exact ⟨h,fun hf => hf.elim⟩

/-- Whether a kernel stack was saved by the clock trap. -/
def savedByClock : KernelPoint → Bool
  | .clock => true
  | _ => false

/-- A stack for which the test holds was saved by the clock. -/
theorem of_savedByClock {k : KernelPoint} (h : savedByClock k=true) : k=.clock := by
  unfold savedByClock at h
  split at h
  · rfl
  · cases h

/-- A clock trap behind the fork starts the child. -/
theorem turns_start : ∃ s,DelayRun sampleMachine s ∧ Turns 3 2 s ∧ s.clockTicks=1 := by
  have hp : (replay sampleMachine quietTest [tickInput,resumeInput] (kernelStep sampleMachine
      (sampleEnv 3 2) (kernelStart sampleMachine sampleBoot)
      (.trap (sampleContext .kernel 1 0 0 0)))).any (fun s => decide (s.cpu=.user ∧
        s.idleProcess=1 ∧ s.currentProcess=3 ∧ s.readyQueue=[2] ∧ s.state 3=.running ∧
        savedByClock (s.kernelContext 2).point=true ∧
        (List.range 16).all (fun i => s.delayUntil (s.processTable i)=0)=true ∧
        (s.pid 2=1 ∧ s.pid 3=2) ∧ s.clockTicks=1))=true := by decide +kernel
  cases hr : replay sampleMachine quietTest [tickInput,resumeInput] (kernelStep sampleMachine
      (sampleEnv 3 2) (kernelStart sampleMachine sampleBoot)
      (.trap (sampleContext .kernel 1 0 0 0))) with
  | none =>
    rw [hr] at hp
    cases hp
  | some s =>
    rw [hr] at hp
    obtain ⟨h1,h2,h3,h4,h5,h6,h7,h8,h9⟩ := of_decide_eq_true hp
    exact ⟨s,replay_run of_quietTest forked_run hr,⟨h1,h2,h3,h4,h5,of_savedByClock h6,
      fun i hi => of_decide_eq_true (List.all_eq_true.1 h7 i (List.mem_range.2 hi)),h8⟩,h9⟩

/-- Behind 2^32-1 ticks a process that asks for two ticks does not sleep. -/
theorem delay_wraps : ∃ s,DelayRun sampleMachine s ∧ s.cpu=.user ∧
    DelayEnv sampleMachine s (sampleEnv 0 0) (.trap delayContext) ∧
    delayContext.vector=.kernel ∧ sampleMachine.syscallOf delayContext.code=.delay ∧
    delayContext.int 0=2 ∧ s.currentProcess≠s.idleProcess ∧ 0≤ s.pid s.currentProcess ∧
    s.pid s.currentProcess<sampleMachine.maxProcs ∧ s.clockTicks=2^32-1 ∧
    ¬SleepsExactly sampleMachine 2 s.currentProcess
      (kernelStep sampleMachine (sampleEnv 0 0) s (.trap delayContext)) := by
  obtain ⟨s₀,hr₀,ht₀,hc₀⟩ := turns_start
  obtain ⟨s,p,q,hr,ht,hpq,hc⟩ := turns_reached hr₀ ht₀ 4294967294
  have hclk := (reachable_clock hr.reachable).2.count
  have hmax : s.clockTicks=2^32-1 := by
    rw [hc₀] at hc
    omega
  have hint : delayContext.int 0=2 := by decide
  have hpid : s.currentProcess≠s.idleProcess ∧ 0≤ s.pid s.currentProcess ∧
      s.pid s.currentProcess<sampleMachine.maxProcs := by
    rw [ht.current,ht.idle]
    rcases hpq with ⟨rfl,_⟩|⟨rfl,_⟩
    · rw [ht.pid.1]
      decide
    · rw [ht.pid.2]
      decide
  have hok : DelayEnv sampleMachine s (sampleEnv 0 0) (.trap delayContext) :=
    ⟨rfl,fun hf => absurd hf.2 (by decide)⟩
  refine ⟨s,hr,ht.user,hok,rfl,rfl,hint,hpid.1,hpid.2.1,hpid.2.2,hmax,fun hsleep => ?_⟩
  refine delay_late hr rfl rfl (by rw [hint]; decide) (by rw [hint]; decide) hpid.1 hpid.2.1
    hpid.2.2 ?_ ((hsleep 0 _ .call).1 (by decide)).1
  rw [hmax,hint]
  decide

end Turns

end Yalnix.Delays

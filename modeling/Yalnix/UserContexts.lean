import Yalnix.Traces
import Yalnix.ProcessIsolation

/-!
# User registers across kernel entries

A stopped process keeps the registers of its last trap: all of them behind a
tick, all but the result inside a call, and those of its parent with result
zero in a new child. Every kernel function keeps this for the process that
runs it, and what it may do to the others is no more than a new result for a
process that is blocked in a call. So user mode is always resumed with the
registers of the last trap, with the result of the call in the first register.
-/

namespace Yalnix.UserContexts

open Framework FrameTable KernelState Scheduling Ipc Terminals ProcessLifetime ProgramLoading
open Syscalls Traps KernelStart Coherence Operations OperationCoherence StepOperations
open CallOperations RunInvariants Traces KernelEntries ProcessIsolation

variable {M : Machine} {env : Env} {s t : Kernel} {p q : PcbPtr} {k : KernelContext}
  {x u : UserContext} {e : Entry} {o b : Option Entry} {n : KernelPoint}

/-- The stack of a process is stopped inside a call, with its arguments. -/
def Stopped (M : Machine) (u : UserContext) : KernelPoint → Prop
  | .wait statusPtr => M.syscallOf u.code=.wait ∧ statusPtr=u.ptr 0
  | .delay => M.syscallOf u.code=.delay
  | .ttyRead t => M.syscallOf u.code=.ttyRead ∧ t=(u.int 0).toNat
  | .ttyWrite t len => M.syscallOf u.code=.ttyWrite ∧ t=(u.int 0).toNat ∧ len=u.int 2
  | .pipeRead id buf len _ =>
    M.syscallOf u.code=.pipeRead ∧ id=u.int 0 ∧ buf=u.ptr 1 ∧ len=u.int 2
  | .acquire id _ => (M.syscallOf u.code=.acquire ∧ id=u.int 0) ∨
    (M.syscallOf u.code=.cvarWait ∧ id=u.int 1)
  | .cvarWait id lockId _ _ => M.syscallOf u.code=.cvarWait ∧ id=u.int 0 ∧ lockId=u.int 1
  | _ => False

/-- The registers are those of a call but for the result. -/
structure Calls (e : Entry) (x : UserContext) : Prop where
  /-- The entry was a call. -/
  vector : e.context.vector=.kernel
  /-- Only the result differs. -/
  same : ∃ rc,x=e.context.setResult rc

/-- What is held for a stopped process with its last entry. -/
def Held (M : Machine) (o : Option Entry) (p : PcbPtr) (k : KernelContext) (x : UserContext) :
    Prop :=
  match k.point with
  | .executing => True
  | .exited => True
  | .boot => o=none
  | .clock => ∃ e,o=some e ∧ e.context.vector=.clock ∧ x=e.context
  | .fork _ => ∃ e,o=some e ∧ e.context.vector=.kernel ∧ M.syscallOf e.context.code=.fork ∧
    x=e.context.setResult 0
  | n => k.caller=p ∧ ∃ e,o=some e ∧ Calls e x ∧ Stopped M e.context n

/-- The points inside calls that can block. -/
def CallPoint : KernelPoint → Prop
  | .executing => False
  | .exited => False
  | .boot => False
  | .clock => False
  | .fork _ => False
  | _ => True

/-- A stopped call is held. -/
theorem held_stopped (hc : Calls e x) (hs : Stopped M e.context n) :
    Held M (some e) p ⟨p,n⟩ x := by
  cases n with
  | executing => trivial
  | exited => trivial
  | boot => exact hs.elim
  | clock => exact hs.elim
  | fork child => exact hs.elim
  | _ => exact ⟨rfl,e,rfl,hc,hs⟩

/-- What is held for a stopped call. -/
theorem Held.call (h : Held M o p k x) (hk : CallPoint k.point) :
    k.caller=p ∧ ∃ e,o=some e ∧ Calls e x ∧ Stopped M e.context k.point := by
  unfold Held at h
  cases hn : k.point with
  | executing => rw [hn] at hk; exact hk.elim
  | exited => rw [hn] at hk; exact hk.elim
  | boot => rw [hn] at hk; exact hk.elim
  | clock => rw [hn] at hk; exact hk.elim
  | fork child => rw [hn] at hk; exact hk.elim
  | _ => rw [hn] at h; exact h

/-- A stopped call may get another result. -/
theorem Held.setResult (h : Held M o p k x) (hk : CallPoint k.point) (rc : ℤ) :
    Held M o p k (x.setResult rc) := by
  obtain ⟨hp,e,rfl,hc,hs⟩ := h.call hk
  obtain ⟨r,rfl⟩ := hc.same
  obtain ⟨caller,n⟩ := k
  subst hp
  exact held_stopped ⟨hc.vector,rc,setResult_setResult _ _ _⟩ hs

/-- Nothing is held for a process that executes. -/
theorem held_executing (h : k.point=.executing) : Held M o p k x := by
  unfold Held
  rw [h]
  trivial

/-- Nothing is held for a process that has ended. -/
theorem held_exited (h : k.point=.exited) : Held M o p k x := by
  unfold Held
  rw [h]
  trivial

/-- What the function of a call does for the process p that runs it with the
registers x: it returns without saving its stack, or it stops with p held and
with the objects that it has looked up. -/
def Serves (M : Machine) (e : Entry) (p : PcbPtr) (x : UserContext) (s : Kernel) : Flow → Prop
  | .returns t u _ => Quiet p s t ∧ u=x
  | .leaves t => Apart p s t ∧ Held M (some e) p (t.kernelContext p) (t.userContext p) ∧
    t.cpu≠.user ∧ Denoted s.objects (t.kernelContext p).point

/-- A call that goes on behind a quiet change. -/
theorem Serves.after {f : Flow} (h : Quiet p s t) (ho : t.objects=s.objects)
    (hf : Serves M e p x t f) : Serves M e p x s f := by
  cases f with
  | returns w u rc => exact ⟨h.trans hf.1,hf.2⟩
  | leaves w =>
    obtain ⟨ha,hh,hcpu,hd⟩ := hf
    rw [ho] at hd
    exact ⟨h.toApart.trans ha,hh,hcpu,hd⟩

/-- A call that returns with nothing changed. -/
theorem serves_same (rc : ℤ) : Serves M e p x s (.returns s x rc) := ⟨.refl p s,rfl⟩

/-- A process that executes has kept no objects. -/
theorem denoted_executing {objects : ℕ → IpcObject} (h : k.point=.executing) :
    Denoted objects k.point := by
  rw [h]
  trivial

/-- A call that stops the machine. -/
theorem serves_panic (he : (s.kernelContext p).point=.executing) (msg : String) :
    Serves M e p x s (.leaves (s.kernelPanic msg)) :=
  ⟨Untouched.apart ⟨rfl,rfl,fun _ => rfl,rfl,rfl⟩,held_executing he,by simp [Kernel.kernelPanic],
    denoted_executing he⟩

/-- The scheduler leaves a kernel stack to be resumed. -/
theorem schedule_cpu (t : Kernel) : (processSchedule M env t).cpu≠.user := by
  simp [processSchedule,dispatchNext]

/-- The process p stops with a stack and registers. -/
structure Parked (p : PcbPtr) (k : KernelContext) (x : UserContext) (s t : Kernel) : Prop where
  /-- The same processes exist. -/
  live : t.live=s.live
  /-- Nobody else is queued. -/
  queue : ∀ a,∀ q∈t.queue a,q∈s.queue a ∨ q=p
  /-- Nobody else becomes a writer. -/
  writer : ∀ i,(t.terminals i).writer=(s.terminals i).writer ∨ (t.terminals i).writer=p
  /-- The registers of p. -/
  context : t.userContext=Function.update s.userContext p x
  /-- The stack of p. -/
  saved : t.kernelContext=Function.update s.kernelContext p k

/-- Stopping leaves the others alone. -/
theorem Parked.apart (h : Parked p k x s t) : Apart p s t := by
  refine ⟨fun q _ hl => ?_,fun q hq hw => ?_,fun q hq => .inl ?_,fun q hq => ?_⟩
  · rw [h.live] at hl
    exact hl
  · rcases hw with ⟨a,ha⟩|⟨h0,i,hi⟩
    · rcases h.queue a q ha with hm|he
      · exact .inl ⟨a,hm⟩
      · exact absurd he hq
    · rcases h.writer i with he|he
      · exact .inr ⟨h0,i,he.symm.trans hi⟩
      · exact absurd (hi.symm.trans he) hq
  · rw [h.context,Function.update_of_ne hq]
  · rw [h.saved,Function.update_of_ne hq]

/-- The scheduler behind a stop. -/
theorem Parked.schedule (h : Parked p k x s t) (hk : Held M (some e) p k x)
    (hd : Denoted s.objects k.point) :
    Serves M e p u s (.leaves (processSchedule M env t)) := by
  have hu : Untouched t (processSchedule M env t) := schedule_untouched t
  refine ⟨h.apart.trans hu.apart,?_,schedule_cpu t,?_⟩
  · rw [hu.saved,hu.context,h.saved,h.context,Function.update_self,Function.update_self]
    exact hk
  · rw [hu.saved,h.saved,Function.update_self]
    exact hd

/-- A process that joins a queue is held with its registers. -/
theorem parked_blockCurrent (hp : s.currentProcess=p) (a : QueueAddr) :
    Parked p k x s (blockCurrent a k x s) := by
  subst hp
  refine ⟨rfl,fun b q hq => ?_,fun _ => .inl rfl,rfl,rfl⟩
  dsimp only [blockCurrent] at hq
  by_cases hb : b=a
  · rw [hb,Function.update_self,List.mem_append,List.mem_singleton] at hq
    rw [hb]
    exact hq
  · rw [Function.update_of_ne hb] at hq
    exact .inl hq

section Calls

variable (hp : s.currentProcess=p) (he : (s.kernelContext p).point=.executing)
  (hc : Calls e x)

include hp hc

/-- The loop of SysWait returns with the report of a child, or holds its caller. -/
theorem waitLoop_serves {statusPtr : ℕ} (hs : Stopped M e.context (.wait statusPtr)) :
    Serves M e p x s (waitLoop M env p statusPtr x s) := by
  unfold waitLoop
  split
  · rename_i c hz
    refine ⟨Quiet.trans ?_ (processDestroy_quiet c _),rfl⟩
    exact Untouched.quiet ⟨rfl,rfl,fun _ => rfl,rfl,rfl⟩ rfl
  · split
    · exact serves_same _
    · refine Parked.schedule (k := ⟨p,.wait statusPtr⟩) (x := x) ?_ (held_stopped hc hs) trivial
      subst hp
      exact ⟨rfl,fun _ _ hq => .inl hq,fun _ => .inl rfl,rfl,rfl⟩

/-- SysDelay returns at once or holds its caller until the deadline. -/
theorem sysDelay_serves (ticks : ℤ) (hs : Stopped M e.context .delay) :
    Serves M e p x s (sysDelay M env p ticks x s) := by
  unfold sysDelay
  split
  · exact serves_same _
  · split
    · exact serves_same _
    · split
      · exact serves_same _
      · obtain ⟨rc,rfl⟩ := hc.same
        have hc' : Calls e ((e.context.setResult rc).setResult SUCCESS) :=
          ⟨hc.vector,SUCCESS,setResult_setResult _ _ _⟩
        refine Parked.schedule (k := ⟨p,.delay⟩) ?_ (held_stopped hc' hs) trivial
        subst hp
        exact ⟨rfl,fun _ _ hq => .inl hq,fun _ => .inl rfl,rfl,rfl⟩

/-- The loop of SysTtyRead returns a line or holds its caller. -/
theorem ttyReadLoop_serves {t : ℕ} (hs : Stopped M e.context (.ttyRead t)) :
    Serves M e p x s (ttyReadLoop M env p t x s) := by
  have htake : ∀ line tty,tty.writer=(s.terminals t).writer →
      Quiet p s (ttyTakeBytes t line tty s) := by
    intro line tty htty
    refine Untouched.quiet ⟨rfl,rfl,?_,rfl,rfl⟩ rfl
    unfold ttyTakeBytes
    dsimp only
    split
    · exact setTerminal_writers htty
    · exact setTerminal_writers htty
  unfold ttyReadLoop
  split
  · exact ⟨htake _ _ rfl,rfl⟩
  · split
    · rename_i line tty hn
      refine ⟨htake line tty ?_,rfl⟩
      unfold ttyNextLine at hn
      split at hn
      · cases hn
        rfl
      · split at hn
        · cases hn
        · cases hn
          rfl
    · exact (parked_blockCurrent hp _).schedule (held_stopped hc hs) trivial

/-- SysTtyRead returns a line that is there or holds its caller as a reader. -/
theorem sysTtyRead_serves (id : ℤ) (buf : ℕ) (len : ℤ)
    (hs : Stopped M e.context (.ttyRead id.toNat)) :
    Serves M e p x s (sysTtyRead M env p id buf len x s) := by
  unfold sysTtyRead
  split
  · exact serves_same _
  · split
    · exact serves_same _
    · split
      · exact serves_same _
      · refine Serves.after (t := s.setTty s.currentProcess {s.tty s.currentProcess with
          ttyId := id.toNat, readBuf := buf, readLen := len.toNat}) ?_ rfl
          (ttyReadLoop_serves ?_ hc hs)
        · exact Untouched.quiet ⟨rfl,rfl,fun _ => rfl,rfl,rfl⟩ rfl
        · exact hp

/-- The loop of SysPipeRead returns bytes or holds its caller. -/
theorem pipeReadLoop_serves {id : ℤ} {buf : ℕ} {len : ℤ}
    (hs : ∀ g,Stopped M e.context (.pipeRead id buf len g)) :
    Serves M e p x s (pipeReadLoop M env p id buf len x s) := by
  unfold pipeReadLoop
  split
  · rename_i pipe hpipe
    split
    · exact (parked_blockCurrent hp _).schedule (held_stopped hc (hs _))
        ⟨pipe,objects_of_getObject hpipe (by simp),rfl⟩
    · exact ⟨Untouched.quiet ⟨rfl,rfl,fun _ => rfl,rfl,rfl⟩ rfl,rfl⟩
  · exact serves_same _

/-- SysPipeRead returns bytes that are there or holds its caller as a reader. -/
theorem sysPipeRead_serves (id : ℤ) (buf : ℕ) (len : ℤ)
    (hs : ∀ g,Stopped M e.context (.pipeRead id buf len g)) :
    Serves M e p x s (sysPipeRead M env p id buf len x s) := by
  unfold sysPipeRead
  split
  · exact serves_same _
  · split
    · exact serves_same _
    · split
      · exact serves_same _
      · exact pipeReadLoop_serves hp hc hs

/-- The loop of LockAcquire returns with the lock or holds its caller. -/
theorem lockAcquireLoop_serves {id : ℤ} {l : LockState} (hl : getObject s id=.lock l)
    (hs : ∀ g,Stopped M e.context (.acquire id g)) :
    Serves M e p x s (lockAcquireLoop M env p id l x s) := by
  unfold lockAcquireLoop
  split
  · refine Parked.schedule (k := ⟨p,.acquire id l.opened⟩) (x := x) ?_ (held_stopped hc (hs _))
      ⟨l,objects_of_getObject hl (by simp),rfl⟩
    have hb : Parked p ⟨p,.acquire id l.opened⟩ x s
        (blockCurrent (.lockWaiters id.toNat) ⟨p,.acquire id l.opened⟩ x s) :=
      parked_blockCurrent hp _
    exact ⟨hb.live,hb.queue,hb.writer,hb.context,hb.saved⟩
  · exact ⟨Untouched.quiet ⟨rfl,rfl,fun _ => rfl,rfl,rfl⟩ rfl,rfl⟩

/-- LockAcquire returns with the lock or holds its caller as a waiter. -/
theorem lockAcquire_serves {id : ℤ} (hs : ∀ g,Stopped M e.context (.acquire id g)) :
    Serves M e p x s (lockAcquire M env p id x s) := by
  unfold lockAcquire
  split
  · rename_i l hl
    split
    · exact serves_same _
    · split
      · exact serves_same _
      · exact lockAcquireLoop_serves hp hc hl hs
  · exact serves_same _

/-- LockAcquire that goes on returns with the lock. -/
theorem lockAcquireResume_serves {id : ℤ} (hs : ∀ g,Stopped M e.context (.acquire id g)) :
    Serves M e p x s (lockAcquireResume M env p id x s) := by
  unfold lockAcquireResume
  split
  · rename_i l hl
    split
    · exact ⟨Untouched.quiet ⟨rfl,rfl,fun _ => rfl,rfl,rfl⟩ rfl,rfl⟩
    · exact lockAcquireLoop_serves hp hc hl hs
  · exact serves_same _

/-- SysCvarWait holds its caller as a waiter unless it refuses. -/
theorem sysCvarWait_serves {id lockId : ℤ}
    (hs : ∀ g g',Stopped M e.context (.cvarWait id lockId g g')) :
    Serves M e p x s (sysCvarWait M env p id lockId x s) := by
  unfold sysCvarWait
  split
  · rename_i cvar lock hcv hlk
    split
    · exact serves_same _
    · have hq : Quiet p s (lockRelease lockId.toNat lock s) := lockRelease_quiet _ _ s
      have hb : Parked p ⟨p,.cvarWait id lockId cvar.opened lock.opened⟩ x
          (lockRelease lockId.toNat lock s) (blockCurrent (.cvarWaiters id.toNat)
            ⟨p,.cvarWait id lockId cvar.opened lock.opened⟩ x
            (lockRelease lockId.toNat lock s)) :=
        parked_blockCurrent (hq.current.trans hp) _
      have hu : Untouched _ (processSchedule M env (blockOnCvar id.toNat
          ⟨p,.cvarWait id lockId cvar.opened lock.opened⟩ x (lockRelease lockId.toNat lock s))) :=
        schedule_untouched _
      have hb' : Apart p (lockRelease lockId.toNat lock s) (blockOnCvar id.toNat
          ⟨p,.cvarWait id lockId cvar.opened lock.opened⟩ x (lockRelease lockId.toNat lock s)) :=
        ⟨hb.apart.live,hb.apart.waiting,hb.apart.context,hb.apart.saved⟩
      have hk : (blockOnCvar id.toNat ⟨p,.cvarWait id lockId cvar.opened lock.opened⟩ x
          (lockRelease lockId.toNat lock s)).kernelContext=_ := hb.saved
      have hx : (blockOnCvar id.toNat ⟨p,.cvarWait id lockId cvar.opened lock.opened⟩ x
          (lockRelease lockId.toNat lock s)).userContext=_ := hb.context
      refine ⟨(hq.toApart.trans hb').trans hu.apart,?_,schedule_cpu _,?_⟩
      · rw [hu.saved,hu.context,hk,hx,Function.update_self,Function.update_self]
        exact held_stopped hc (hs _ _)
      · rw [hu.saved,hk,Function.update_self]
        exact ⟨⟨cvar,objects_of_getObject hcv (by simp),rfl⟩,
          lock,objects_of_getObject hlk (by simp),rfl⟩
  · exact serves_same _

/-- SysCvarWait that goes on acquires the lock or waits for it. -/
theorem cvarWaitResume_serves {id lockId : ℤ}
    (hs : ∀ g,Stopped M e.context (.acquire lockId g)) :
    Serves M e p x s (cvarWaitResume M env p id lockId x s) := by
  unfold cvarWaitResume
  split
  · exact lockAcquire_serves hp hc hs
  · exact serves_same _

omit hc in
/-- A writer of an idle terminal stops behind its first chunk. -/
theorem parked_startWrite {t buf : ℕ} {len : ℤ} :
    Parked p k (x.setResult len) s (ttyTransmit M t (becomeWriter t (prepareWrite env k t buf len
      x s))) := by
  subst hp
  refine ⟨rfl,fun _ _ hq => .inl hq,fun i => ?_,rfl,rfl⟩
  dsimp only [ttyTransmit,becomeWriter,prepareWrite]
  rw [Function.update_idem,Function.update_self]
  by_cases hi : i=t
  · right
    rw [hi,Function.update_self]
  · left
    rw [Function.update_of_ne hi]

omit hc in
/-- A writer of a busy terminal stops on its queue. -/
theorem parked_queueWrite {t buf : ℕ} {len : ℤ} :
    Parked p k (x.setResult len) s (queueWriter t (prepareWrite env k t buf len x s)) := by
  subst hp
  refine ⟨rfl,fun b q hq => ?_,fun _ => .inl rfl,rfl,rfl⟩
  dsimp only [queueWriter,prepareWrite] at hq
  by_cases hb : b=.writeQueue t
  · rw [hb,Function.update_self,List.mem_append,List.mem_singleton] at hq
    rw [hb]
    exact hq
  · rw [Function.update_of_ne hb] at hq
    exact .inl hq

/-- SysTtyWrite holds its caller until its bytes are written, unless it refuses. -/
theorem sysTtyWrite_serves (id : ℤ) (buf : ℕ) (len : ℤ)
    (hs : Stopped M e.context (.ttyWrite id.toNat len)) :
    Serves M e p x s (sysTtyWrite M env p id buf len x s) := by
  have hc' : Calls e (x.setResult len) := by
    obtain ⟨rc,rfl⟩ := hc.same
    exact ⟨hc.vector,len,setResult_setResult _ _ _⟩
  have hheld : Held M (some e) p ⟨p,.ttyWrite id.toNat len⟩ (x.setResult len) :=
    held_stopped hc' hs
  unfold sysTtyWrite
  split
  · exact serves_same _
  · rename_i hv
    split
    · exact serves_same _
    · split
      · exact serves_same _
      · rename_i hi
        split
        · exact serves_same _
        · split
          · rename_i hw
            rw [startWrite_eq (fun h0 => hi (.inl h0)) (by omega) hw.2]
            exact (parked_startWrite hp).schedule hheld trivial
          · exact (parked_queueWrite hp).schedule hheld trivial

end Calls

section Others

/-- The scheduler behind the end of a process touches no other one and does not
return to user mode. -/
theorem leaveZombie_untouched (M : Machine) (env : Env) (s : Kernel) :
    Untouched s (leaveZombie M env s) ∧ (leaveZombie M env s).cpu≠.user := by
  have hu : Untouched s (processSchedule M env s) := schedule_untouched s
  unfold leaveZombie
  split
  · exact ⟨hu,schedule_cpu s⟩
  · exact ⟨hu.trans ⟨rfl,rfl,fun _ => rfl,rfl,rfl⟩,fun h => (by cases h)⟩

/-- ProcessExitCurrent holds the ended process for ever. -/
theorem exitCurrent_serves (hp : s.currentProcess=p)
    (he : (s.kernelContext p).point=.executing) (status : ℤ) :
    Serves M e p x s (.leaves (processExitCurrent M env status s)) := by
  unfold processExitCurrent
  split
  · exact serves_panic he _
  · split
    · exact ⟨Untouched.apart ⟨rfl,rfl,fun _ => rfl,rfl,rfl⟩,held_executing he,by simp,
        denoted_executing he⟩
    · obtain ⟨ho,hoc⟩ := orphanChildren_untouched s.currentProcess
        (s.children s.currentProcess) s
      have hq : Quiet p s (ipcProcessExit s.currentProcess (orphanChildren s.currentProcess
          (s.children s.currentProcess) s)) :=
        (ho.quiet hoc).trans (releaseLoop_quiet _ _ _)
      obtain ⟨hz,hk⟩ := becomeZombie_apart (p := p) status ⟨s.currentProcess,.exited⟩
        (hq.current.trans hp)
      obtain ⟨hu,hcpu⟩ := leaveZombie_untouched M env (becomeZombie status
        ⟨s.currentProcess,.exited⟩ (ipcProcessExit s.currentProcess (orphanChildren
          s.currentProcess (s.children s.currentProcess) s)))
      have hex : (Kernel.kernelContext (leaveZombie M env (becomeZombie status
          ⟨s.currentProcess,.exited⟩ (ipcProcessExit s.currentProcess (orphanChildren
            s.currentProcess (s.children s.currentProcess) s)))) p).point=.exited := by
        rw [hu.saved,hk]
      refine ⟨(hq.toApart.trans hz).trans hu.apart,held_exited hex,hcpu,?_⟩
      rw [hex]
      trivial

/-- SysPipeWrite returns to its caller. -/
theorem sysPipeWrite_serves (he : (s.kernelContext p).point=.executing) (id : ℤ) (buf : ℕ)
    (len : ℤ) : Serves M e p x s (sysPipeWrite env id buf len x s) := by
  unfold sysPipeWrite
  split
  · exact serves_same _
  · split
    · exact serves_same _
    · split
      · split
        · exact serves_same _
        · exact ⟨Untouched.apart ⟨rfl,rfl,fun _ => rfl,rfl,rfl⟩,held_executing he,by simp,
            denoted_executing he⟩
        · refine ⟨(Quiet.trans ?_ (wakeAll_quiet _ _)).trans (emit_quiet _ _),rfl⟩
          exact Untouched.quiet ⟨rfl,rfl,fun _ => rfl,rfl,rfl⟩ rfl
      · exact serves_same _

/-- An object is entered with an empty queue. -/
theorem opened_quiet {a : QueueAddr} (hl : t.live=s.live)
    (hq : t.queue=Function.update s.queue a []) (ht : t.terminals=s.terminals)
    (hu : t.userContext=s.userContext) (hk : t.kernelContext=s.kernelContext)
    (hc : t.currentProcess=s.currentProcess) : Quiet p s t := by
  refine ⟨⟨fun q _ hlq => ?_,fun q _ hw => ?_,fun q _ => .inl ?_,fun q _ => ?_⟩,?_,hc⟩
  · rw [hl] at hlq
    exact hlq
  · refine waiting_shrink hw (fun b q hb => ?_) (fun i => ?_)
    · rw [hq] at hb
      exact empty_subset b q hb
    · rw [ht]
  · rw [hu]
  · rw [hk]
  · rw [hk]

/-- SysPipeInit returns to its caller. -/
theorem sysPipeInit_serves (a : ℕ) : Serves M e p x s (sysPipeInit M env a x s) := by
  unfold sysPipeInit
  split
  · exact serves_same _
  · split
    · exact serves_same _
    · split
      · exact ⟨opened_quiet rfl rfl rfl rfl rfl rfl,rfl⟩
      · exact serves_same _

/-- SysLockInit returns to its caller. -/
theorem sysLockInit_serves (a : ℕ) : Serves M e p x s (sysLockInit a x s) := by
  unfold sysLockInit
  split
  · exact serves_same _
  · split
    · exact serves_same _
    · exact ⟨opened_quiet rfl rfl rfl rfl rfl rfl,rfl⟩

/-- SysCvarInit returns to its caller. -/
theorem sysCvarInit_serves (a : ℕ) : Serves M e p x s (sysCvarInit a x s) := by
  unfold sysCvarInit
  split
  · exact serves_same _
  · split
    · exact serves_same _
    · exact ⟨opened_quiet rfl rfl rfl rfl rfl rfl,rfl⟩

/-- SysRelease returns to its caller. -/
theorem sysRelease_serves (id : ℤ) : Serves M e p x s (sysRelease id x s) := by
  unfold sysRelease
  split
  · split
    · exact serves_same _
    · exact ⟨lockRelease_quiet _ _ s,rfl⟩
  · exact serves_same _

/-- SysCvarSignal returns to its caller. -/
theorem sysCvarSignal_serves (id : ℤ) : Serves M e p x s (sysCvarSignal id x s) := by
  unfold sysCvarSignal
  split
  · exact ⟨wakeOne_quiet _ s,rfl⟩
  · exact serves_same _

/-- SysCvarBroadcast returns to its caller. -/
theorem sysCvarBroadcast_serves (id : ℤ) : Serves M e p x s (sysCvarBroadcast id x s) := by
  unfold sysCvarBroadcast
  split
  · exact ⟨wakeAll_quiet _ s,rfl⟩
  · exact serves_same _

/-- SysReclaim returns to its caller. -/
theorem sysReclaim_serves (id : ℤ) : Serves M e p x s (sysReclaim id x s) := by
  unfold sysReclaim
  split
  · exact serves_same _
  · exact ⟨Untouched.quiet ⟨rfl,rfl,fun _ => rfl,rfl,rfl⟩ rfl,rfl⟩

/-- Exec behind its check of the caller. -/
theorem execImage_serves (M : Machine) (env : Env) (e : Entry) (x : UserContext)
    (hp : s.currentProcess=p) (he : (s.kernelContext p).point=.executing) (filename argvec : ℕ) :
    Serves M e p x s (execImage M env filename argvec x s) := by
  unfold execImage
  split
  · exact ⟨Untouched.quiet ⟨rfl,rfl,fun _ => rfl,rfl,rfl⟩ rfl,rfl⟩
  · split
    · exact ⟨Untouched.quiet ⟨rfl,rfl,fun _ => rfl,rfl,rfl⟩ rfl,rfl⟩
    · refine Serves.after ?_ ?_ (exitCurrent_serves ?_ ?_ _)
      · exact Untouched.quiet ⟨rfl,rfl,fun _ => rfl,rfl,rfl⟩ rfl
      · rfl
      · exact hp
      · exact he
    · exact ⟨Untouched.apart ⟨rfl,rfl,fun _ => rfl,rfl,rfl⟩,held_executing he,
        fun hc => (by cases hc),denoted_executing he⟩
    · subst hp
      exact ⟨⟨⟨fun q _ hl => hl,fun q _ hw => hw,
        fun q hq => .inl (Function.update_of_ne hq ..),fun q _ => rfl⟩,rfl,rfl⟩,rfl⟩

/-- SysExec returns to its caller with another image, or ends it. -/
theorem sysExec_serves (M : Machine) (env : Env) (e : Entry) (x : UserContext)
    (hp : s.currentProcess=p) (he : (s.kernelContext p).point=.executing) (filename argvec : ℕ) :
    Serves M e p x s (sysExec M env filename argvec x s) := by
  unfold sysExec
  split
  · exact serves_same _
  · refine Serves.after ?_ ?_ (execImage_serves M env e x ?_ ?_ filename argvec)
    · exact Untouched.quiet ⟨rfl,rfl,fun _ => rfl,rfl,rfl⟩ rfl
    · rfl
    · exact hp
    · exact he

end Others

section Blocked

/-- A blocked process is stopped inside a call. -/
def BlockedOk (live : PcbPtr → Bool) (state : PcbPtr → ProcState)
    (saved : PcbPtr → KernelContext) : Prop :=
  ∀ p,live p=true → state p=.blocked → CallPoint (saved p).point

variable {live : PcbPtr → Bool} {state : PcbPtr → ProcState}
  {saved : PcbPtr → KernelContext} {allow : Label → Prop}

/-- A process gets another state. -/
theorem BlockedOk.setState {a : ProcState} (h : BlockedOk live state saved) (ha : a≠.blocked) :
    BlockedOk live (Function.update state p a) saved := by
  intro q hl hb
  by_cases hq : q=p
  · rw [hq,Function.update_self] at hb
    exact absurd hb ha
  · rw [Function.update_of_ne hq] at hb
    exact h q hl hb

/-- A process that is not blocked gets another stack. -/
theorem BlockedOk.setSaved (h : BlockedOk live state saved) (hp : state p≠.blocked) :
    BlockedOk live state (Function.update saved p k) := by
  intro q hl hb
  by_cases hq : q=p
  · rw [hq] at hb
    exact absurd hb hp
  · rw [Function.update_of_ne hq]
    exact h q hl hb

/-- A process that stops is blocked with the stack of its call. -/
theorem BlockedOk.park {a : ProcState} (h : BlockedOk live state saved)
    (ha : a=.blocked → CallPoint k.point) :
    BlockedOk live (Function.update state p a) (Function.update saved p k) := by
  intro q hl hb
  by_cases hq : q=p
  · rw [hq,Function.update_self] at hb
    rw [hq,Function.update_self]
    exact ha hb
  · rw [Function.update_of_ne hq] at hb ⊢
    exact h q hl hb

/-- A process that is destroyed is no longer blocked. -/
theorem BlockedOk.death (h : BlockedOk live state saved) :
    BlockedOk (Function.update live p false) state saved := by
  intro q hl hb
  by_cases hq : q=p
  · rw [hq,Function.update_self] at hl
    cases hl
  · rw [Function.update_of_ne hq] at hl
    exact h q hl hb

/-- A new process is not blocked. -/
theorem BlockedOk.birth (h : BlockedOk live state saved) :
    BlockedOk (Function.update live p true) (Function.update state p .ready)
      (Function.update saved p k) := by
  intro q hl hb
  by_cases hq : q=p
  · rw [hq,Function.update_self] at hb
    cases hb
  · rw [Function.update_of_ne hq] at hl hb ⊢
    exact h q hl hb

/-- Every operation leaves blocked processes inside their calls. -/
theorem op_blockedOk {b : Bool} (hc : Coherent M s)
    (h : BlockedOk s.live s.state s.kernelContext) (hop : Op M allow b s t) :
    BlockedOk t.live t.state t.kernelContext := by
  have hready : ∀ p,BlockedOk s.live (Function.update s.state p .ready) s.kernelContext :=
    fun p => h.setState (by decide)
  have hstop : ∀ {k : KernelContext},CallPoint k.point →
      BlockedOk s.live (Function.update s.state s.currentProcess .blocked)
        (Function.update s.kernelContext s.currentProcess k) :=
    fun hk => h.park (fun _ => hk)
  cases hop with
  | begin hr hl hn => exact h.setSaved hr.not_blocked
  | preempt ha => exact h.setSaved ha.toRunnable.not_blocked
  | sleepOver p hl ho => exact hready p
  | requeue hi hs => exact hready _
  | dispatch env hs =>
    have he := dispatchNext_eq hc hs
    rw [he]
    dsimp only
    split
    · exact h
    · exact h.setState (by decide)
  | forkUndone env c pfns pt m₁ m u ha hcp =>
    obtain ⟨h0,hl⟩ := callocPcb_fresh hcp
    rw [destroyed_child hc h0 hl]
    exact h.birth.death
  | spawn env caller c pfns pt m₁ m u hb =>
    rw [spawn_eq]
    exact h.birth
  | handOff i l w rest u => exact hready w
  | zombie status k env m v hk => exact h.park (fun hb => by cases hb)
  | zombieWake status k env m v hk => exact (h.park (fun hb => by cases hb)).setState (by decide)
  | collect statusPtr c ha hch hz =>
    rw [collectChild_eq hc ha statusPtr hch hz]
    exact h.death
  | blockDelay ticks k u hk => exact hstop (by rw [hk]; trivial)
  | blockChild statusPtr k u hk => exact hstop (by rw [hk]; trivial)
  | blockPipe id buf len pipe k u hk => exact hstop (by rw [hk]; trivial)
  | blockLock id l k u hk => exact hstop (by rw [hk]; trivial)
  | blockCvar id lockId cvar lockOpened k u hk => exact hstop (by rw [hk]; trivial)
  | blockRead i k u hk => exact hstop (by rw [hk]; trivial)
  | startWrite env i buf len k u hk => exact hstop (by rw [hk]; trivial)
  | queueWrite env i buf len k u hk => exact hstop (by rw [hk]; trivial)
  | wake q w rest u => exact hready w
  | writeDone i len hr => exact h.setSaved hr.not_blocked
  | lockResume id l hr => exact h.setSaved hr.not_blocked
  | takeHanded i line hk hl =>
    exact h.setSaved (hc.reader.handed _ line hc.ready.current_live hl).2.1
  | deliver i line r rest => exact hready r
  | transmitLast i u => exact hready _
  | transmitNext i u w rest => exact hready _
  | _ => exact h

end Blocked

section Steps

/-- What a step of the process p with the entry o does to the others. -/
structure Spares (M : Machine) (o : Option Entry) (p : PcbPtr) (s t : Kernel) : Prop where
  /-- Stacks are kept, and registers but for the result of a waiting process. -/
  old : ∀ q,q≠p → s.live q=true → t.kernelContext q=s.kernelContext q ∧
    (t.userContext q=s.userContext q ∨
      Waiting s q ∧ ∃ rc,t.userContext q=(s.userContext q).setResult rc)
  /-- A new process is a child with the registers of its parent and result zero. -/
  born : ∀ q,q≠p → s.live q=false → t.live q=true → t.parent q=p ∧
    t.kernelContext q=⟨p,.fork q⟩ ∧ ∃ e,o=some e ∧ e.context.vector=.kernel ∧
      M.syscallOf e.context.code=.fork ∧ t.userContext q=e.context.setResult 0

/-- Functions that create no process spare the others. -/
theorem apart_spares (h : Apart p s t) : Spares M o p s t := by
  refine ⟨fun q hq _ => ⟨h.saved q hq,h.context q hq⟩,fun q hq hs ht => ?_⟩
  rw [h.live q hq ht] at hs
  cases hs

/-- Changes that others do not see. -/
theorem Spares.after (h : Spares M o p s t) {w : Kernel} (hu : Untouched t w)
    (hp : w.parent=t.parent) : Spares M o p s w := by
  refine ⟨fun q hq hl => ?_,fun q hq hs hl => ?_⟩
  · rw [hu.saved,hu.context]
    exact h.old q hq hl
  · rw [hu.live] at hl
    rw [hu.saved,hu.context,hp]
    exact h.born q hq hs hl

/-- A child that has been entered. -/
theorem entered_spares {c : PcbPtr} {pid : ℤ} {pfns : ℕ → ℕ} {pt : PageTable} {m : Memory}
    (hl : s.live c=false) (hcp : c≠p) (hv : u.vector=.kernel)
    (hcall : M.syscallOf u.code=.fork) (hx : s.userContext p=u) (objects : ℕ → IpcObject) :
    Spares M (some ⟨u,objects⟩) p s (kcCopy M c ⟨p,.fork c⟩
      ((enterChild M p c pid pfns pt m s).setUserContext c
        (((enterChild M p c pid pfns pt m s).userContext c).setResult 0))) := by
  refine ⟨fun q hq hlq => ?_,fun q hq hs ht => ?_⟩
  · have hqc : q≠c := by
      rintro rfl
      rw [hl] at hlq
      cases hlq
    dsimp only [kcCopy,Kernel.setUserContext,enterChild]
    rw [Function.update_of_ne hqc,Function.update_of_ne hqc,Function.update_of_ne hqc,
      Function.update_of_ne hqc]
    exact ⟨rfl,.inl rfl⟩
  · have hqc : q=c := by
      by_contra hne
      dsimp only [kcCopy,Kernel.setUserContext,enterChild] at ht
      rw [Function.update_of_ne hne,hs] at ht
      cases ht
    dsimp only [kcCopy,Kernel.setUserContext,enterChild]
    rw [hqc,Function.update_self,Function.update_self,Function.update_self,Function.update_self,hx]
    exact ⟨rfl,rfl,⟨u,objects⟩,rfl,hv,hcall,rfl⟩

/-- A child that has been entered and destroyed again. -/
theorem destroyed_spares {c : PcbPtr} {pid : ℤ} {pfns : ℕ → ℕ} {pt : PageTable} {m : Memory}
    (h0 : c≠0) (hl : s.live c=false) :
    Spares M o p s
      (processDestroy M c ((enterChild M p c pid pfns pt m s).setUserContext c x)) := by
  have hd : Quiet p ((enterChild M p c pid pfns pt m s).setUserContext c x)
      (processDestroy M c ((enterChild M p c pid pfns pt m s).setUserContext c x)) :=
    processDestroy_quiet c _
  refine ⟨fun q hq hlq => ?_,fun q hq hs ht => ?_⟩
  · have hqc : q≠c := by
      rintro rfl
      rw [hl] at hlq
      cases hlq
    have hctx : ((enterChild M p c pid pfns pt m s).setUserContext c x).userContext q=
        s.userContext q := by
      dsimp only [Kernel.setUserContext,enterChild]
      rw [Function.update_of_ne hqc,Function.update_of_ne hqc]
    refine ⟨(hd.saved q hq).trans ?_,?_⟩
    · dsimp only [Kernel.setUserContext,enterChild]
      rw [Function.update_of_ne hqc]
    · rw [←hctx]
      exact hd.context q hq
  · exfalso
    have hqc : q=c := by
      by_contra hne
      have hlive := hd.live q hq ht
      dsimp only [Kernel.setUserContext,enterChild] at hlive
      rw [Function.update_of_ne hne,hs] at hlive
      cases hlive
    unfold processDestroy at ht
    rw [if_neg h0,hqc] at ht
    dsimp only [releaseProcess] at ht
    rw [Function.update_self] at ht
    cases ht

/-- ProcessMakeReady keeps the parents of all processes. -/
theorem makeReady_parent (s : Kernel) (q : PcbPtr) : (processMakeReady s q).parent=s.parent := by
  unfold processMakeReady
  split
  · rfl
  · split
    · rfl
    · rfl

/-- SysFork spares the others and gives the child the registers of its parent. -/
theorem sysFork_spares (hp : s.currentProcess=p) (hlive : s.live p=true) (hv : u.vector=.kernel)
    (hcall : M.syscallOf u.code=.fork) (hx : s.userContext p=u) (objects : ℕ → IpcObject) :
    (∃ t,sysFork M env p u s=.leaves t ∧ Apart p s t ∧
        t.kernelContext p=s.kernelContext p ∧ t.cpu≠.user) ∨
      ∃ t rc,sysFork M env p u s=.returns t u rc ∧ Spares M (some ⟨u,objects⟩) p s t ∧
        t.kernelContext p=s.kernelContext p ∧ t.currentProcess=p := by
  unfold sysFork
  split
  · exact .inr ⟨s,ERROR,rfl,apart_spares (Untouched.refl s).apart,rfl,hp⟩
  · split
    · exact .inl ⟨_,rfl,Untouched.apart ⟨rfl,rfl,fun _ => rfl,rfl,rfl⟩,rfl,
        by simp [Kernel.kernelPanic]⟩
    · rcases processCreateChild_cases M env s s.currentProcess with
        ⟨m,he⟩|⟨c,pfns,pt,m₁,m,hc,hk,hn,hcr,he⟩
      · rw [he]
        refine .inr ⟨_,ERROR,rfl,apart_spares ?_,rfl,hp⟩
        exact Untouched.apart ⟨rfl,rfl,fun _ => rfl,rfl,rfl⟩
      · obtain ⟨h0,hl⟩ := callocPcb_fresh hc
        have hcp : c≠p := by
          rintro rfl
          rw [hlive] at hl
          cases hl
        rw [he,hp]
        dsimp only
        split
        · unfold sysForkReturn
          split
          · rename_i hcur
            exact absurd (hcur.symm.trans hp) hcp
          · refine .inr ⟨_,_,rfl,Spares.after ?_ (makeReady_untouched _ _) (makeReady_parent _ _),
              ?_,(makeReady_current _ _).trans hp⟩
            · exact (entered_spares hl hcp hv hcall hx objects).after
                ⟨rfl,rfl,fun _ => rfl,rfl,rfl⟩ rfl
            · rw [(makeReady_untouched _ _).saved]
              dsimp only [Kernel.emit,kcCopy,Kernel.setUserContext,enterChild]
              rw [Function.update_of_ne hcp.symm,Function.update_of_ne hcp.symm]
        · have hd : Quiet p ((enterChild M p c env.newPid pfns pt m s).setUserContext c
              (((enterChild M p c env.newPid pfns pt m s).userContext c).setResult 0)) _ :=
            processDestroy_quiet (M := M) c _
          refine .inr ⟨_,ERROR,rfl,destroyed_spares h0 hl,hd.own.trans ?_,hd.current.trans hp⟩
          dsimp only [Kernel.setUserContext,enterChild]
          rw [Function.update_of_ne hcp.symm]

/-- User mode goes on with the registers y of the last entry: as they were, or
with the result of the call. -/
structure Restored (M : Machine) (result : Option ℤ) (e : Entry) (y : UserContext) : Prop where
  /-- Entries that are no calls. -/
  interrupt : e.context.vector≠.kernel → y=e.context
  /-- Calls other than Exec and Exit. -/
  call : e.context.vector=.kernel → M.syscallOf e.context.code≠.exec →
    M.syscallOf e.context.code≠.exit → ∃ rc,result=some rc ∧ y=e.context.setResult rc

/-- What a step of the process p does, whose entry is then o and who hands the
entry b to a child. -/
structure Outcome (M : Machine) (result : Option ℤ) (b o : Option Entry) (p : PcbPtr)
    (s t : Kernel) : Prop where
  /-- The other processes are spared. -/
  others : Spares M b p s t
  /-- The process itself is held with the registers of its entry. -/
  own : Held M o p (t.kernelContext p) (t.userContext p)
  /-- User mode goes on in p with the registers of its entry. -/
  user : t.cpu=.user → t.currentProcess=p ∧ ∀ e,o=some e → Restored M result e t.uctxt
  /-- A stopped call keeps the objects it has looked up. -/
  fresh : Denoted s.objects (t.kernelContext p).point

/-- The tail of TrapKernel for the process that entered it. -/
theorem trapKernelReturn_own (h0 : p≠0) (hp : t.currentProcess=p) (y : UserContext) :
    trapKernelReturn p y t=returnToUser y (t.setUserContext p y) := by
  subst hp
  unfold trapKernelReturn
  rw [if_pos ⟨rfl,h0⟩]

/-- The process returns to user mode. -/
theorem Spares.leave (h : Spares M o p s t) (x y : UserContext) :
    Spares M o p s (returnToUser y (t.setUserContext p x)) := by
  refine ⟨fun q hq hl => ?_,fun q hq hs hl => ?_⟩
  · dsimp only [returnToUser,Kernel.setUserContext]
    rw [Function.update_of_ne hq]
    exact h.old q hq hl
  · dsimp only [returnToUser,Kernel.setUserContext]
    rw [Function.update_of_ne hq]
    exact h.born q hq hs hl

/-- The process has saved its registers before. -/
theorem Spares.enter (h : Spares M o p (s.setUserContext p x) t) : Spares M o p s t := by
  refine ⟨fun q hq hl => ?_,h.born⟩
  have hold := h.old q hq hl
  dsimp only [Kernel.setUserContext] at hold
  rw [Function.update_of_ne hq] at hold
  exact hold

/-- The process has taken up its stack before. -/
theorem Spares.begin (h : Spares M o p (s.setKernelContext p k) t) : Spares M o p s t := by
  refine ⟨fun q hq hl => ?_,h.born⟩
  have hold := h.old q hq hl
  dsimp only [Kernel.setKernelContext] at hold
  rw [Function.update_of_ne hq] at hold
  exact hold

/-- A call gets its registers back with its result. -/
theorem Calls.restored {rc : ℤ} (hc : Calls e x) : Restored M (some rc) e (x.setResult rc) := by
  obtain ⟨r,rfl⟩ := hc.same
  refine ⟨fun hv => absurd hc.vector hv,fun _ _ _ => ⟨rc,rfl,?_⟩⟩
  exact setResult_setResult _ _ _

/-- A call that returns has the outcome of its result. -/
theorem returned_outcome {rc : ℤ} (h0 : p≠0) (hs : Spares M b p s t)
    (hk : (t.kernelContext p).point=.executing) (hp : t.currentProcess=p) (hc : Calls e x) :
    Outcome M (some rc) b (some e) p s (trapKernelReturn p (x.setResult rc) t) := by
  rw [trapKernelReturn_own h0 hp]
  refine ⟨hs.leave _ _,held_executing hk,fun _ => ⟨hp,fun e' he => ?_⟩,denoted_executing hk⟩
  injection he with he
  subst he
  exact hc.restored

/-- A call that has stopped. -/
theorem stopped_outcome {v : Option ℤ} (hs : Spares M b p s t)
    (hk : Held M o p (t.kernelContext p) (t.userContext p))
    (hcpu : t.cpu≠.user ∧ Denoted s.objects (t.kernelContext p).point) :
    Outcome M v b o p s t :=
  ⟨hs,hk,fun hu => absurd hu hcpu.1,hcpu.2⟩

/-- The end of a call. -/
theorem finish_outcome {f : Flow} (h0 : p≠0) (hp : s.currentProcess=p)
    (he : (s.kernelContext p).point=.executing) (hc : Calls e x) (hf : Serves M e p x s f) :
    Outcome M (flowResult f) b (some e) p s (finish p f) := by
  cases f with
  | returns t u rc =>
    obtain ⟨hq,rfl⟩ := hf
    refine returned_outcome h0 (apart_spares hq.toApart) ?_ (hq.current.trans hp) hc
    rw [hq.own]
    exact he
  | leaves t => exact stopped_outcome (apart_spares hf.1) hf.2.1 hf.2.2

/-- Results are put into the registers of the trap. -/
theorem calls_entry (hv : u.vector=.kernel) (objects : ℕ → IpcObject) : Calls ⟨u,objects⟩ u :=
  ⟨hv,_,(setResult_self u).symm⟩

/-- What the function of a call other than Fork does. -/
theorem callFlow_serves (hp : s.currentProcess=p) (he : (s.kernelContext p).point=.executing)
    (hv : u.vector=.kernel) (hf : M.syscallOf u.code≠.fork) (objects : ℕ → IpcObject) :
    Serves M ⟨u,objects⟩ p u s (callFlow M env p u s) := by
  have hc : Calls ⟨u,objects⟩ u := calls_entry hv objects
  unfold callFlow
  cases hcall : M.syscallOf u.code with
  | fork => exact absurd hcall hf
  | exec => exact sysExec_serves M env ⟨u,objects⟩ u hp he _ _
  | exit => exact exitCurrent_serves hp he _
  | wait =>
    dsimp only [sysWait]
    split
    · exact serves_same _
    · exact waitLoop_serves hp hc ⟨hcall,rfl⟩
  | getPid =>
    dsimp only [sysGetPid]
    split
    · exact serves_same _
    · exact serves_same _
  | brk =>
    dsimp only [sysBrk]
    split
    · exact serves_same _
    · exact ⟨Untouched.quiet ⟨rfl,rfl,fun _ => rfl,rfl,rfl⟩ rfl,rfl⟩
  | delay => exact sysDelay_serves hp hc _ hcall
  | ttyRead => exact sysTtyRead_serves hp hc _ _ _ ⟨hcall,rfl⟩
  | ttyWrite => exact sysTtyWrite_serves hp hc _ _ _ ⟨hcall,rfl,rfl⟩
  | pipeInit => exact sysPipeInit_serves _
  | pipeRead => exact sysPipeRead_serves hp hc _ _ _ (fun _ => ⟨hcall,rfl,rfl,rfl⟩)
  | pipeWrite => exact sysPipeWrite_serves he _ _ _
  | lockInit => exact sysLockInit_serves _
  | acquire => exact lockAcquire_serves hp hc (fun _ => .inl ⟨hcall,rfl⟩)
  | release => exact sysRelease_serves _
  | cvarInit => exact sysCvarInit_serves _
  | cvarSignal => exact sysCvarSignal_serves _
  | cvarBroadcast => exact sysCvarBroadcast_serves _
  | cvarWait => exact sysCvarWait_serves hp hc (fun _ _ => ⟨hcall,rfl,rfl⟩)
  | reclaim => exact sysReclaim_serves _
  | unsupported => exact serves_same _

/-- What the function of a stopped call does. -/
theorem resumeFlow_serves (hp : s.currentProcess=p) (hk : k.caller=p)
    (hc : Calls e (savedContext s)) (hs : Stopped M e.context k.point) :
    Serves M e p (savedContext s) s (resumeFlow M env k s) := by
  obtain ⟨caller,n⟩ := k
  subst hk
  unfold resumeFlow
  cases n with
  | executing => exact hs.elim
  | exited => exact hs.elim
  | boot => exact hs.elim
  | clock => exact hs.elim
  | fork child => exact hs.elim
  | wait statusPtr =>
    refine Serves.after (t := {s with
      waitingForChild := Function.update s.waitingForChild s.currentProcess false}) ?_ rfl
      (waitLoop_serves ?_ hc hs)
    · exact Untouched.quiet ⟨rfl,rfl,fun _ => rfl,rfl,rfl⟩ rfl
    · exact hp
  | delay => exact serves_same _
  | ttyRead t => exact ttyReadLoop_serves hp hc hs
  | ttyWrite t len => exact ⟨Untouched.quiet ⟨rfl,rfl,fun _ => rfl,rfl,rfl⟩ rfl,rfl⟩
  | pipeRead id buf len g => exact pipeReadLoop_serves hp hc (fun _ => hs)
  | acquire id g => exact lockAcquireResume_serves hp hc (fun _ => hs)
  | cvarWait id lockId g g' => exact cvarWaitResume_serves hp hc (fun _ => .inr ⟨hs.1,hs.2.2⟩)

section Dispatch

variable (h0 : p≠0) (hp : s.currentProcess=p) (he : (s.kernelContext p).point=.executing)
  (hv : u.vector=.kernel) (objects : ℕ → IpcObject)

include h0 hp he hv

/-- A fork returns the identifier of the child and spares the others. -/
theorem fork_outcome (hlive : s.live p=true) (hx : s.userContext p=u)
    (hcall : M.syscallOf u.code=.fork) :
    Outcome M (flowResult (sysFork M env p u s)) (some ⟨u,objects⟩) (some ⟨u,objects⟩) p s
      (finish p (sysFork M env p u s)) := by
  rcases sysFork_spares hp hlive hv hcall hx objects with
    ⟨t,hfl,ha,hk,hcpu⟩|⟨t,rc,hfl,hsp,hk,hcur⟩
  · have hex : (t.kernelContext p).point=.executing := by
      rw [hk]
      exact he
    rw [hfl]
    exact stopped_outcome (apart_spares ha) (held_executing hex) ⟨hcpu,denoted_executing hex⟩
  · rw [hfl]
    exact returned_outcome h0 hsp (by rw [hk]; exact he) hcur (calls_entry hv objects)

/-- An Exec returns with a new image or ends its process. -/
theorem exec_outcome {v : Option ℤ} (hcall : M.syscallOf u.code=.exec) (filename argvec : ℕ) :
    Outcome M v (some ⟨u,objects⟩) (some ⟨u,objects⟩) p s
      (finishExec p (sysExec M env filename argvec u s)) := by
  have hserve := sysExec_serves M env ⟨u,objects⟩ u hp he filename argvec
  cases hf : sysExec M env filename argvec u s with
  | returns t y rc =>
    rw [hf] at hserve
    have hcur := hserve.1.current.trans hp
    have hrest : ∀ y : UserContext,Outcome M v (some ⟨u,objects⟩) (some ⟨u,objects⟩) p s
        (returnToUser y (t.setUserContext p y)) := by
      intro y
      have hex : (t.kernelContext p).point=.executing := by
        rw [hserve.1.own]
        exact he
      refine ⟨(apart_spares hserve.1.toApart).leave _ _,held_executing hex,fun _ => ⟨hcur,?_⟩,
        denoted_executing hex⟩
      · intro e' he'
        injection he' with he'
        subst he'
        exact ⟨fun hn => absurd hv hn,fun _ hn => absurd hcall hn⟩
    dsimp only [finishExec]
    split
    · rw [trapKernelReturn_own h0 hcur]
      exact hrest _
    · rw [trapKernelReturn_own h0 hcur]
      exact hrest _
  | leaves t =>
    rw [hf] at hserve
    exact stopped_outcome (apart_spares hserve.1) hserve.2.1 hserve.2.2

/-- The dispatcher returns the result of the call to its caller alone. -/
theorem syscallDispatch_outcome (hlive : s.live p=true) (hx : s.userContext p=u) :
    Outcome M (flowResult (callFlow M env p u s)) (some ⟨u,objects⟩) (some ⟨u,objects⟩) p s
      (syscallDispatch M env p u s) := by
  by_cases hex : M.syscallOf u.code=.exec
  · have hd : syscallDispatch M env p u s=
        finishExec p (sysExec M env (u.ptr 0) (u.ptr 1) u s) := by
      unfold syscallDispatch
      rw [hex]
    rw [hd]
    exact exec_outcome h0 hp he hv objects hex _ _
  · rw [syscallDispatch_finish env p u hex]
    by_cases hf : M.syscallOf u.code=.fork
    · have hc : callFlow M env p u s=sysFork M env p u s := by
        unfold callFlow
        rw [hf]
      rw [hc]
      exact fork_outcome h0 hp he hv objects hlive hx hf
    · exact finish_outcome h0 hp he (calls_entry hv objects) (callFlow_serves hp he hv hf objects)

end Dispatch

/-- TrapKernel returns the result of the call with the registers of the entry. -/
theorem trapKernel_outcome (h0 : s.currentProcess≠0) (hlive : s.live s.currentProcess=true)
    (he : (s.kernelContext s.currentProcess).point=.executing) (hv : u.vector=.kernel) :
    Outcome M (returnValue M env s (.trap u)) (some ⟨u,s.objects⟩) (some ⟨u,s.objects⟩)
    s.currentProcess s
      (trapKernel M env u s) := by
  unfold returnValue stepFlow trapKernel
  dsimp only
  rw [saveContext_current u h0]
  have hown : Outcome M (flowResult (callFlow M env s.currentProcess u
      (s.setUserContext s.currentProcess u))) (some ⟨u,s.objects⟩) (some ⟨u,s.objects⟩)
      s.currentProcess
      (s.setUserContext s.currentProcess u) (syscallDispatch M env s.currentProcess u
        (s.setUserContext s.currentProcess u)) :=
    syscallDispatch_outcome (s := s.setUserContext s.currentProcess u) (p := s.currentProcess) h0
      rfl he hv s.objects hlive (Function.update_self ..)
  exact ⟨hown.others.enter,hown.own,hown.user,hown.fresh⟩

/-- A trap that is no call. -/
theorem restored_interrupt {v : Option ℤ} (hv : u.vector≠.kernel) (objects : ℕ → IpcObject) :
    ∀ e,some (⟨u,objects⟩ : Entry)=some e → Restored M v e u := by
  intro e he
  injection he with he
  subst he
  exact ⟨fun _ => rfl,fun hn => absurd hn hv⟩

/-- A trap that returns to the process it interrupted. -/
theorem quiet_outcome {v : Option ℤ} (he : (s.kernelContext p).point=.executing)
    (hv : u.vector≠.kernel) (hp : s.currentProcess=p) (hq : Quiet p s t)
    (objects : ℕ → IpcObject) :
    Outcome M v (some ⟨u,objects⟩) (some ⟨u,objects⟩) p s (returnToUser u t) := by
  have hs : Spares M (some ⟨u,objects⟩) p s t := apart_spares hq.toApart
  have hex : (t.kernelContext p).point=.executing := by
    rw [hq.own]
    exact he
  exact ⟨⟨hs.old,hs.born⟩,held_executing hex,fun _ =>
    ⟨hq.current.trans hp,restored_interrupt hv objects⟩,denoted_executing hex⟩

/-- A trap that ends the process. -/
theorem exit_outcome {v : Option ℤ} (he : (s.kernelContext p).point=.executing)
    (hp : s.currentProcess=p) (hq : Quiet p s t) (ho : t.objects=s.objects) (status : ℤ) :
    Outcome M v b (some e) p s (processExitCurrent M env status t) := by
  have hex : (t.kernelContext p).point=.executing := by
    rw [hq.own]
    exact he
  obtain ⟨ha,hk,hcpu⟩ : Serves M e p e.context t (.leaves (processExitCurrent M env status t)) :=
    exitCurrent_serves (hq.current.trans hp) hex status
  rw [ho] at hcpu
  exact stopped_outcome (apart_spares (hq.toApart.trans ha)) hk hcpu

/-- TrapClock returns nothing and keeps the registers of the process. -/
theorem trapClock_outcome {v : Option ℤ} (h0 : s.currentProcess≠0) (hv : u.vector=.clock) :
    Outcome M v (some ⟨u,s.objects⟩) (some ⟨u,s.objects⟩) s.currentProcess s
    (trapClock M env u s) := by
  have hpark : Parked s.currentProcess ⟨s.currentProcess,.clock⟩ u s
      ((tickClock (saveContext u s)).setKernelContext s.currentProcess
        ⟨s.currentProcess,.clock⟩) := by
    rw [saveContext_current u h0]
    exact ⟨rfl,fun _ _ hq => .inl hq,fun _ => .inl rfl,rfl,rfl⟩
  obtain ⟨ha,hk,hcpu⟩ : Serves M ⟨u,s.objects⟩ s.currentProcess u s
      (.leaves (trapClock M env u s)) := hpark.schedule ⟨_,rfl,hv,rfl⟩ trivial
  exact stopped_outcome (apart_spares ha) hk hcpu

/-- Every trap has its outcome for the process that runs. -/
theorem trap_outcome (hlive : s.live s.currentProcess=true) (h0 : s.currentProcess≠0)
    (he : (s.kernelContext s.currentProcess).point=.executing) :
    Outcome M (returnValue M env s (.trap u)) (some ⟨u,s.objects⟩) (some ⟨u,s.objects⟩)
    s.currentProcess s
      (trap M env u s) := by
  have hsave : Quiet s.currentProcess s (saveContext u s) := by
    rw [saveContext_current u h0]
    exact ⟨⟨fun q _ hl => hl,fun q _ hw => hw,fun q hq => .inl (Function.update_of_ne hq ..),
      fun q _ => rfl⟩,rfl,rfl⟩
  have hobj : (saveContext u s).objects=s.objects := by
    rw [saveContext_current u h0]
    rfl
  unfold trap
  cases hv : u.vector with
  | clock => exact trapClock_outcome h0 hv
  | kernel => exact trapKernel_outcome h0 hlive he hv
  | memory =>
    dsimp only [trapMemory]
    split
    · refine quiet_outcome he (by simp [hv]) rfl (hsave.trans ?_) _
      exact Untouched.quiet ⟨rfl,rfl,fun _ => rfl,rfl,rfl⟩ rfl
    · refine exit_outcome he rfl (hsave.trans ?_) ?_ _
      · exact Untouched.quiet ⟨rfl,rfl,fun _ => rfl,rfl,rfl⟩ rfl
      · exact hobj
  | illegal => exact exit_outcome he rfl hsave hobj _
  | math => exact exit_outcome he rfl hsave hobj _
  | ttyReceive => exact quiet_outcome he (by simp [hv]) rfl (trapTtyReceive_quiet u s) _
  | ttyTransmit => exact quiet_outcome he (by simp [hv]) rfl (trapTtyTransmit_quiet u s) _
  | disk => exact quiet_outcome he (by simp [hv]) rfl (.refl _ s) _
  | other => exact quiet_outcome he (by simp [hv]) rfl (.refl _ s) _

section Resumed

variable (hp : s.currentProcess=p) (he : (s.kernelContext p).point=.executing)

include hp he

/-- A stack that is stopped in TrapClock or KernelStart. -/
theorem interrupted_outcome {v : Option ℤ}
    (hr : ∀ e,o=some e → e.context.vector≠.kernel ∧ savedContext s=e.context) :
    Outcome M v b o p s (returnToUser (savedContext s) s) := by
  refine ⟨apart_spares (Untouched.apart ⟨rfl,rfl,fun _ => rfl,rfl,rfl⟩),held_executing he,
    fun _ => ⟨hp,fun e hoe => ?_⟩,denoted_executing he⟩
  obtain ⟨hv,hx⟩ := hr e hoe
  exact ⟨fun _ => hx,fun hn => absurd hn hv⟩

/-- A child that leaves SysFork. Its stack names its parent as the caller, so
that the registers come from its own block. -/
theorem child_outcome (h0 : p≠0) (caller : PcbPtr) (hv : e.context.vector=.kernel)
    (hx : savedContext s=e.context.setResult 0) :
    Outcome M (flowResult (sysForkReturn p (savedContext s) s)) b (some e) p s
      (finish caller (sysForkReturn p (savedContext s) s)) := by
  have hflow : sysForkReturn p (savedContext s) s=.returns s (savedContext s) 0 := by
    unfold sysForkReturn
    rw [if_pos hp]
  have hc : Calls e (savedContext s) := ⟨hv,0,hx⟩
  rw [hflow]
  by_cases hcp : caller=p
  · rw [hcp]
    exact returned_outcome h0 (apart_spares (Untouched.refl s).apart) he hp hc
  · have hret : finish caller (.returns s (savedContext s) 0)=returnToUser (savedContext s) s := by
      dsimp only [finish,trapKernelReturn]
      rw [if_neg (fun hn => hcp (hn.1.trans hp)),if_pos (by rw [hp]; exact h0)]
      rfl
    rw [hret]
    refine ⟨apart_spares (Untouched.apart ⟨rfl,rfl,fun _ => rfl,rfl,rfl⟩),held_executing he,
      fun _ => ⟨hp,fun e' hoe => ?_⟩,denoted_executing he⟩
    injection hoe with hoe
    subst hoe
    exact ⟨fun hn => absurd hv hn,fun _ _ _ => ⟨0,rfl,hx⟩⟩

/-- A saved stack that goes on has the outcome of its call. -/
theorem continueAt_outcome (h0 : p≠0) (hk : PointOk M p k.point)
    (hh : Held M o p k (savedContext s)) :
    Outcome M (flowResult (resumeFlow M env k s)) b o p s (continueAt M env k s) := by
  have hpanic : ∀ msg,Outcome M (flowResult (resumeFlow M env k s)) b o p s (s.kernelPanic msg) :=
    fun msg => stopped_outcome (apart_spares (Untouched.apart ⟨rfl,rfl,fun _ => rfl,rfl,rfl⟩))
      (held_executing he) ⟨by simp [Kernel.kernelPanic],denoted_executing he⟩
  obtain ⟨caller,n⟩ := k
  by_cases hcp : CallPoint n
  · obtain ⟨hcaller,e,rfl,hc,hs⟩ := hh.call hcp
    dsimp only at hcaller
    rw [continueAt_finish,hcaller]
    exact finish_outcome h0 hp he hc (resumeFlow_serves hp rfl hc hs)
  · cases n with
    | executing => exact hpanic _
    | exited => exact hpanic _
    | boot =>
      refine interrupted_outcome hp he (fun e hoe => ?_)
      rw [show o=none from hh] at hoe
      cases hoe
    | clock =>
      obtain ⟨e,rfl,hv,hx⟩ := hh
      refine interrupted_outcome hp he (fun e' hoe => ?_)
      injection hoe with hoe
      subst hoe
      exact ⟨by rw [hv]; simp,hx⟩
    | fork child =>
      obtain ⟨e,rfl,hv,_,hx⟩ := hh
      have hchild : child=p := hk
      subst hchild
      exact child_outcome hp he h0 caller hv hx
    | _ => exact absurd trivial hcp

end Resumed

/-- A resumed kernel stack has the outcome of its call. -/
theorem resume_outcome (h0 : s.currentProcess≠0)
    (hk : PointOk M s.currentProcess (s.kernelContext s.currentProcess).point)
    (hh : Held M o s.currentProcess (s.kernelContext s.currentProcess)
      (s.userContext s.currentProcess)) :
    Outcome M (returnValue M env s .resume) b o s.currentProcess s (resume M env s) := by
  have hown : Outcome M (flowResult (resumeFlow M env (s.kernelContext s.currentProcess)
      (s.setKernelContext s.currentProcess ⟨s.currentProcess,.executing⟩))) b o s.currentProcess
      (s.setKernelContext s.currentProcess ⟨s.currentProcess,.executing⟩)
      (continueAt M env (s.kernelContext s.currentProcess)
        (s.setKernelContext s.currentProcess ⟨s.currentProcess,.executing⟩)) := by
    refine continueAt_outcome rfl ?_ h0 hk hh
    simp [Kernel.setKernelContext]
  exact ⟨hown.others.begin,hown.own,hown.user,hown.fresh⟩

end Steps

section Runs

variable {g : PcbPtr → Option Entry} {input : Input} {ok : Kernel → Env → Input → Prop}

/-- What holds of the states of watched runs. -/
structure Watched (M : Machine) (s : Kernel) (g : PcbPtr → Option Entry) : Prop extends
    Settled M s where
  /-- Blocked processes are inside calls. -/
  blocked : BlockedOk s.live s.state s.kernelContext
  /-- Stopped processes keep the registers of their last trap. -/
  held : ∀ p,s.live p=true → Held M (g p) p (s.kernelContext p) (s.userContext p)

/-- A waiting process is blocked. -/
theorem waiting_blocked (hc : Coherent M s) (hl : s.live q=true) (hw : Waiting s q) :
    s.state q=.blocked := by
  rcases hw with ⟨a,ha⟩|⟨_,i,hi⟩
  · exact hc.block.reasons.blocked q (.queue a) hl ha
  · exact hc.block.reasons.blocked q (.writer i) hl hi

/-- The entry of a process that a step is not about. -/
theorem entered_other (hq : q≠s.currentProcess) (hl : s.live q=true) :
    entered s g input q=g q := by
  cases input with
  | trap u =>
    dsimp only [entered]
    rw [if_neg]
    rintro (h|h)
    · exact hq h
    · rw [hl] at h
      cases h
  | resume => rfl

/-- The entry that a step hands to a child. -/
def inherited (s : Kernel) : Input → Option Entry
  | .trap u => some ⟨u,s.objects⟩
  | .resume => none

/-- Every step of a watched run has its outcome. -/
theorem kernelStep_outcome (env : Env) (h : Watched M s g) (he : input.Enabled s) :
    Outcome M (returnValue M env s input) (inherited s input)
      (entered s g input s.currentProcess) s.currentProcess s (kernelStep M env s input) := by
  have hl := h.ready.current_live
  have h0 : s.currentProcess≠0 := h.ready.ne_null hl
  cases input with
  | trap u =>
    have hent : entered s g (.trap u) s.currentProcess=some ⟨u,s.objects⟩ := if_pos (.inl rfl)
    rw [hent]
    exact trap_outcome hl h0 (h.user he).executing
  | resume => exact resume_outcome h0 (h.saved.point _ hl) (h.held _ hl)

/-- Stopped processes keep their registers in a step. -/
theorem held_step {v : Option ℤ} (h : Watched M s g) (ho : Outcome M v (inherited s input)
      (entered s g input s.currentProcess) s.currentProcess s t) (hl : t.live q=true) :
    Held M (entered s g input q) q (t.kernelContext q) (t.userContext q) := by
  by_cases hq : q=s.currentProcess
  · rw [hq]
    exact ho.own
  · cases hs : s.live q with
    | true =>
      rw [entered_other hq hs]
      obtain ⟨hk,hx⟩ := ho.others.old q hq hs
      rw [hk]
      rcases hx with hx|⟨hw,rc,hx⟩
      · rw [hx]
        exact h.held q hs
      · rw [hx]
        exact (h.held q hs).setResult (h.blocked q hs (waiting_blocked h.toCoherent hs hw)) rc
    | false =>
      obtain ⟨_,hk,e,hoe,hv,hcall,hx⟩ := ho.others.born q hq hs hl
      have hent : entered s g input q=some e := by
        cases input with
        | trap u =>
          rw [←hoe]
          exact if_pos (.inr hs)
        | resume => cases hoe
      rw [hent,hk]
      exact ⟨e,rfl,hv,hcall,hx⟩

/-- The boot leaves idle stopped in KernelStart and no entries. -/
theorem booted_watched {b : Boot M} (hu : (kernelStart M b).cpu=.user) :
    Watched M (kernelStart M b) (fun _ => none) := by
  obtain ⟨p,q,pfn,pfns,m₁,m₂,m,v,u,hf,he⟩ := kernelStart_eq hu
  rw [he]
  refine ⟨booted_settled hf,fun x hx hb => ?_,fun x hx => ?_⟩
  · rw [booted_running (booted_live.1 hx)] at hb
    cases hb
  · rcases booted_live.1 hx with rfl|rfl
    · exact held_executing booted_executing
    · have hk : ((bootedKernel M b x q pfn pfns m₁ m₂ m v u).kernelContext x).point=.boot :=
        booted_idle hf.ne
      unfold Held
      rw [hk]

/-- Operations leave blocked processes inside their calls. -/
theorem ops_blockedOk (hops : Ops M allow s t) (hc : Coherent M s)
    (h : BlockedOk s.live s.state s.kernelContext) :
    Coherent M t ∧ BlockedOk t.live t.state t.kernelContext := by
  induction hops with
  | refl => exact ⟨hc,h⟩
  | tail _ hone ih =>
    obtain ⟨c,hone⟩ := hone
    exact ⟨op_coherent ih.1 hone,op_blockedOk ih.1 ih.2 hone⟩

/-- A step of a watched state. -/
theorem watched_step (env : Env) (h : Watched M s g) (he : input.Enabled s)
    (hs : env.switchOk=true) : Watched M (kernelStep M env s input) (entered s g input) := by
  have hany : StepAllowed M (fun _ => True) s env input := fun _ _ => trivial
  obtain ⟨hops,hset⟩ := kernelStep_done h.toSettled hs he hany
  exact ⟨hset,(ops_blockedOk hops h.toCoherent h.blocked).2,
    fun q hl => held_step h (kernelStep_outcome env h he) hl⟩

/-- Every state of a watched run. -/
theorem run_watched (hok : ∀ s env input,ok s env input → env.switchOk=true)
    (h : EntryRun M ok s g) : Watched M s g := by
  induction h with
  | boot b hu => exact booted_watched hu
  | step env input _ he hst ih => exact watched_step env ih he (hok _ _ _ hst)

/-- Returning from a call ends in user mode. -/
theorem finish_user {f : Flow} {rc : ℤ} (caller : PcbPtr) (hf : flowResult f=some rc) :
    (finish caller f).cpu=.user := by
  cases f with
  | returns t y r =>
    dsimp only [finish,trapKernelReturn]
    split
    · rfl
    · split
      · rfl
      · rfl
  | leaves t => cases hf

/-- In every run, user mode is resumed in the process that the kernel worked
for, with the registers of its last trap: unchanged behind a tick or any other
trap that is no call, and behind a call other than Exec and Exit with the value
that the call returned in the first register. A new process is the child of a
Fork; it starts with the registers of its parent at the trap and result zero.
A step keeps the saved stack and the registers of every other process, except
for the result of a process that is blocked in a call. -/
theorem run_userContexts (h : EntryRun M SwitchSucceeds s g) (he : input.Enabled s) :
    ((kernelStep M env s input).cpu=.user →
      (kernelStep M env s input).currentProcess=s.currentProcess ∧
      ∀ e,entered s g input s.currentProcess=some e →
        (e.context.vector≠.kernel → (kernelStep M env s input).uctxt=e.context) ∧
        (e.context.vector=.kernel → M.syscallOf e.context.code≠.exec →
          M.syscallOf e.context.code≠.exit → ∃ rc,returnValue M env s input=some rc ∧
            (kernelStep M env s input).uctxt=e.context.setResult rc)) ∧
    (∀ c,s.live c=false → (kernelStep M env s input).live c=true →
      (kernelStep M env s input).parent c=s.currentProcess ∧
        ((kernelStep M env s input).kernelContext c).point=.fork c ∧
        ∃ u,input=.trap u ∧ u.vector=.kernel ∧ M.syscallOf u.code=.fork ∧
          entered s g input c=some ⟨u,s.objects⟩) ∧
    (∀ c,input=.resume → (s.kernelContext s.currentProcess).point=.fork c →
      (kernelStep M env s input).cpu=.user ∧ ∃ e,g s.currentProcess=some e ∧
        (kernelStep M env s input).uctxt=e.context.setResult 0) ∧
    ∀ q,s.live q=true → q≠s.currentProcess →
      entered s g input q=g q ∧
        (kernelStep M env s input).kernelContext q=s.kernelContext q ∧
        ((kernelStep M env s input).userContext q=s.userContext q ∨
          s.state q=.blocked ∧ (∃ e,g q=some e ∧ e.context.vector=.kernel) ∧
            ∃ rc,(kernelStep M env s input).userContext q=(s.userContext q).setResult rc) := by
  have hw : Watched M s g := run_watched (fun _ _ _ hs => hs) h
  have ho := kernelStep_outcome env hw he
  have hl := hw.ready.current_live
  refine ⟨fun hu => ?_,fun c hs ht => ?_,fun c hi hk => ?_,fun q hs hq => ?_⟩
  · obtain ⟨hc,hr⟩ := ho.user hu
    exact ⟨hc,fun e hoe => ⟨(hr e hoe).interrupt,(hr e hoe).call⟩⟩
  · have hne : c≠s.currentProcess := by
      rintro rfl
      rw [hl] at hs
      cases hs
    obtain ⟨hp,hk,e,hoe,hv,hcall,_⟩ := ho.others.born c hne hs ht
    cases input with
    | trap u =>
      injection hoe with hoe
      subst hoe
      refine ⟨hp,by rw [hk],u,rfl,hv,hcall,?_⟩
      exact if_pos (.inr hs)
    | resume => cases hoe
  · subst hi
    have hpt := hw.saved.point _ hl
    rw [hk] at hpt
    have hc : c=s.currentProcess := hpt
    have hheld := hw.held _ hl
    unfold Held at hheld
    rw [hk] at hheld
    obtain ⟨e,hge,hv,hcall,_⟩ := hheld
    have hret : returnValue M env s .resume=some 0 := by
      unfold returnValue stepFlow resumeFlow
      dsimp only
      rw [hk]
      dsimp only [sysForkReturn,Kernel.setKernelContext]
      rw [if_pos hc.symm]
      rfl
    have hcpu : (kernelStep M env s .resume).cpu=.user := by
      dsimp only [kernelStep,resume]
      rw [continueAt_finish]
      exact finish_user _ hret
    refine ⟨hcpu,e,hge,?_⟩
    obtain ⟨rc,hrc,hx⟩ := ((ho.user hcpu).2 e hge).call hv (by rw [hcall]; simp)
      (by rw [hcall]; simp)
    rw [hret] at hrc
    injection hrc with hrc
    rw [hrc]
    exact hx
  · obtain ⟨hk,hx⟩ := ho.others.old q hq hs
    refine ⟨entered_other hq hs,hk,?_⟩
    rcases hx with hx|⟨hwait,hx⟩
    · exact .inl hx
    · have hb := waiting_blocked hw.toCoherent hs hwait
      obtain ⟨_,e,hge,hc,_⟩ := (hw.held q hs).call (hw.blocked q hs hb)
      exact .inr ⟨hb,⟨e,hge,hc.vector⟩,hx⟩

/-- The initial process is in the kernel behind a tick that found 17 in its first
register, and its child has had a tick since with 5 in its first register. -/
def bothTicked (s : Kernel) (g : PcbPtr → Option Entry) : Bool :=
  decide (s.cpu=.kernel ∧ s.currentProcess=2 ∧
    (kernelStep sampleMachine (sampleEnv 0 0) s .resume).cpu=.user) &&
  (g 2).any (fun e => decide (e.context.vector=.clock ∧ e.context.int 0=17)) &&
  (g 3).any (fun e => decide (e.context.vector=.clock ∧ e.context.int 0=5))

/-- The initial process goes on behind its tick as it was, although its child has
run in between. -/
theorem run_userContexts_tick : ∃ s g e e',EntryRun sampleMachine SwitchSucceeds s g ∧
    g 2=some e ∧ e.context.int 0=17 ∧ g 3=some e' ∧ e'.context.int 0=5 ∧
    (kernelStep sampleMachine (sampleEnv 0 0) s .resume).currentProcess=2 ∧
    (kernelStep sampleMachine (sampleEnv 0 0) s .resume).uctxt=e.context := by
  obtain ⟨s,g,hr,hq⟩ := @replayEntries_exists _ SwitchSucceeds _ _ switchTest (fun _ _ _ h => h)
    (.boot sampleBoot sampleBoot_user) [forkInput 3 2,
      (sampleEnv 0 0,.trap (sampleContext .clock 0 17 18 19)),resumeInput,
      (sampleEnv 0 0,.trap (sampleContext .clock 0 5 6 7))] bothTicked (by decide +kernel)
  obtain ⟨hq,h3⟩ := Bool.and_eq_true_iff.1 hq
  obtain ⟨hs,h2⟩ := Bool.and_eq_true_iff.1 hq
  obtain ⟨hk,hc,hu⟩ := of_decide_eq_true hs
  obtain ⟨e,he,hp⟩ := (Option.any_eq_true ..).1 h2
  obtain ⟨e',he',hp'⟩ := (Option.any_eq_true ..).1 h3
  obtain ⟨hv,h17⟩ := of_decide_eq_true hp
  obtain ⟨_,h5⟩ := of_decide_eq_true hp'
  obtain ⟨hcur,hback⟩ := (@run_userContexts _ (sampleEnv 0 0) s g .resume hr hk).1 hu
  rw [hc] at hcur hback
  exact ⟨s,g,e,e',hr,he,h17,he',h5,hcur,(hback e he).1 (by rw [hv]; decide)⟩

end Runs

end Yalnix.UserContexts

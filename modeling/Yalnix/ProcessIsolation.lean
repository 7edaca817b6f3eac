import Yalnix.KernelEntries

/-!
# What a process does to the others

A kernel function that runs for one process leaves the saved stacks of the
others alone, and of their registers it changes the result only, and that only
for processes that wait on a queue or are writers of a terminal. One lemma for
each kernel function says so; a call that returns also leaves the stack of its
own process alone, and a call that stops has saved that process alone.
-/

namespace Yalnix.ProcessIsolation

open Framework FrameTable KernelState Scheduling Ipc Terminals ProcessLifetime ProgramLoading
open Syscalls Traps KernelStart

variable {M : Machine} {env : Env} {s t w : Kernel} {p q : PcbPtr} {i : ℕ} {k : KernelContext}
  {x u : UserContext} {a : QueueAddr}

/-- The process waits on a queue or for its own transmission. -/
def Waiting (s : Kernel) (q : PcbPtr) : Prop :=
  (∃ a,q∈s.queue a) ∨ (q≠0 ∧ ∃ i,(s.terminals i).writer=q)

/-- Nothing has changed that a stopped process depends on. -/
structure Untouched (s t : Kernel) : Prop where
  /-- The same processes exist. -/
  live : t.live=s.live
  /-- Every queue is the same. -/
  queue : t.queue=s.queue
  /-- Every terminal has the same writer. -/
  writer : ∀ i,(t.terminals i).writer=(s.terminals i).writer
  /-- Every process has the same saved registers. -/
  context : t.userContext=s.userContext
  /-- Every process has the same saved stack. -/
  saved : t.kernelContext=s.kernelContext

/-- What may change for the processes other than p. -/
structure Apart (p : PcbPtr) (s t : Kernel) : Prop where
  /-- Processes are not created. -/
  live : ∀ q,q≠p → t.live q=true → s.live q=true
  /-- Nobody else begins to wait. -/
  waiting : ∀ q,q≠p → Waiting t q → Waiting s q
  /-- Of the registers only the result of a waiting process changes. -/
  context : ∀ q,q≠p → t.userContext q=s.userContext q ∨
    Waiting s q ∧ ∃ rc,t.userContext q=(s.userContext q).setResult rc
  /-- Saved stacks are kept. -/
  saved : ∀ q,q≠p → t.kernelContext q=s.kernelContext q

/-- No stack is saved and the processor is kept. -/
structure Quiet (p : PcbPtr) (s t : Kernel) : Prop extends Apart p s t where
  /-- The stack of p is not saved. -/
  own : t.kernelContext p=s.kernelContext p
  /-- The current process stays. -/
  current : t.currentProcess=s.currentProcess

/-- Only the first register is written twice. -/
theorem setResult_setResult (u : UserContext) (a b : ℤ) :
    (u.setResult a).setResult b=u.setResult b := by
  unfold UserContext.setResult
  dsimp only
  rw [Function.update_idem]

/-- Writing the present value changes nothing. -/
theorem setResult_self (u : UserContext) : u.setResult (u.int 0)=u := by
  unfold UserContext.setResult UserContext.int
  rw [BitVec.ofInt_toInt,Function.update_eq_self]

/-- A state is untouched relative to itself. -/
theorem Untouched.refl (s : Kernel) : Untouched s s := ⟨rfl,rfl,fun _ => rfl,rfl,rfl⟩

/-- A change that leaves stopped processes alone may follow on another. -/
theorem Untouched.trans (h : Untouched s t) (h' : Untouched t w) : Untouched s w :=
  ⟨h'.live.trans h.live,h'.queue.trans h.queue,fun i => (h'.writer i).trans (h.writer i),
    h'.context.trans h.context,h'.saved.trans h.saved⟩

/-- Whoever waits afterwards has waited before. -/
theorem Untouched.waiting (h : Untouched s t) (hw : Waiting t q) : Waiting s q := by
  rcases hw with ⟨a,ha⟩|⟨h0,i,hi⟩
  · rw [h.queue] at ha
    exact .inl ⟨a,ha⟩
  · rw [h.writer i] at hi
    exact .inr ⟨h0,i,hi⟩

/-- The other processes are left alone. -/
theorem Untouched.apart (h : Untouched s t) : Apart p s t := by
  refine ⟨fun q _ hl => ?_,fun q _ hw => h.waiting hw,fun q _ => .inl ?_,fun q _ => ?_⟩
  · rw [h.live] at hl
    exact hl
  · rw [h.context]
  · rw [h.saved]

/-- So is the stack of p. -/
theorem Untouched.quiet (h : Untouched s t) (hc : t.currentProcess=s.currentProcess) :
    Quiet p s t :=
  ⟨h.apart,by rw [h.saved],hc⟩

/-- A change apart from p may follow on another one. -/
theorem Apart.trans (h : Apart p s t) (h' : Apart p t w) : Apart p s w := by
  refine ⟨fun q hq hl => h.live q hq (h'.live q hq hl),
    fun q hq hw => h.waiting q hq (h'.waiting q hq hw),fun q hq => ?_,
    fun q hq => (h'.saved q hq).trans (h.saved q hq)⟩
  rcases h'.context q hq with he'|⟨hw',rc',he'⟩
  · rw [he']
    exact h.context q hq
  · refine .inr ⟨h.waiting q hq hw',rc',?_⟩
    rcases h.context q hq with he|⟨_,rc,he⟩
    · rw [he',he]
    · rw [he',he,setResult_setResult]

/-- A quiet change may follow on another one. -/
theorem Quiet.trans (h : Quiet p s t) (h' : Quiet p t w) : Quiet p s w :=
  ⟨h.toApart.trans h'.toApart,h'.own.trans h.own,h'.current.trans h.current⟩

/-- A state is quiet relative to itself. -/
theorem Quiet.refl (p : PcbPtr) (s : Kernel) : Quiet p s s := (Untouched.refl s).quiet rfl

/-- Recording an event saves no stack and keeps the processor. -/
theorem emit_quiet (s : Kernel) (e : Event) : Quiet p s (s.emit e) :=
  Untouched.quiet ⟨rfl,rfl,fun _ => rfl,rfl,rfl⟩ rfl

section Scheduler

/-- ProcessMakeReady changes nothing that a stopped process depends on. -/
theorem makeReady_untouched (s : Kernel) (q : PcbPtr) : Untouched s (processMakeReady s q) := by
  unfold processMakeReady
  split
  · exact .refl s
  · split
    · exact ⟨rfl,rfl,fun _ => rfl,rfl,rfl⟩
    · exact ⟨rfl,rfl,fun _ => rfl,rfl,rfl⟩

/-- ProcessMakeReady keeps the current process. -/
theorem makeReady_current (s : Kernel) (q : PcbPtr) :
    (processMakeReady s q).currentProcess=s.currentProcess := by
  unfold processMakeReady
  split
  · rfl
  · split
    · rfl
    · rfl

/-- One round of ProcessWakeDelayed leaves stopped processes as they are. -/
theorem wakeIfOver_untouched (s : Kernel) (i : ℕ) : Untouched s (wakeIfOver s i) := by
  unfold wakeIfOver
  split
  · refine Untouched.trans ?_ (makeReady_untouched _ _)
    exact ⟨rfl,rfl,fun _ => rfl,rfl,rfl⟩
  · exact .refl s

/-- The rounds of ProcessWakeDelayed leave stopped processes as they are. -/
theorem wakeLoop_untouched (l : List ℕ) (s : Kernel) : Untouched s (l.foldl wakeIfOver s) := by
  induction l generalizing s with
  | nil => exact .refl s
  | cons i rest ih => exact (wakeIfOver_untouched s i).trans (ih _)

/-- The running process is requeued. -/
theorem requeue_untouched (s : Kernel) : Untouched s (requeueCurrent s) := by
  unfold requeueCurrent
  split
  · exact makeReady_untouched _ _
  · exact .refl s

/-- The next process is picked. -/
theorem dispatchNext_untouched (s : Kernel) : Untouched s (dispatchNext M env s) := by
  unfold dispatchNext processSwitch
  split
  · exact ⟨rfl,rfl,fun _ => rfl,rfl,rfl⟩
  · split
    · exact ⟨rfl,rfl,fun _ => rfl,rfl,rfl⟩
    · exact ⟨rfl,rfl,fun _ => rfl,rfl,rfl⟩

/-- ProcessSchedule changes nothing that a stopped process depends on. -/
theorem schedule_untouched (s : Kernel) : Untouched s (processSchedule M env s) :=
  ((wakeLoop_untouched _ s).trans (requeue_untouched _)).trans (dispatchNext_untouched _)

end Scheduler

section Wakers

/-- Queues from which processes have been removed. -/
theorem waiting_shrink (h : Waiting t q) (hq : ∀ a,∀ q∈t.queue a,q∈s.queue a)
    (hw : ∀ i,(t.terminals i).writer=(s.terminals i).writer) : Waiting s q := by
  rcases h with ⟨a,ha⟩|⟨h0,i,hi⟩
  · exact .inl ⟨a,hq a q ha⟩
  · rw [hw i] at hi
    exact .inr ⟨h0,i,hi⟩

/-- The rest of a queue. -/
theorem rest_subset {c : PcbPtr} {rest : List PcbPtr} (h : s.queue a=c::rest) :
    ∀ b,∀ q∈Function.update s.queue a rest b,q∈s.queue b := by
  intro b q hq
  by_cases hb : b=a
  · rw [hb,Function.update_self] at hq
    rw [hb,h]
    exact List.mem_cons_of_mem c hq
  · rw [Function.update_of_ne hb] at hq
    exact hq

/-- A queue that is emptied. -/
theorem empty_subset : ∀ b,∀ q∈Function.update s.queue a [] b,q∈s.queue b := by
  intro b q hq
  by_cases hb : b=a
  · rw [hb,Function.update_self] at hq
    cases hq
  · rw [Function.update_of_ne hb] at hq
    exact hq

/-- Waking the first process of a queue saves no stack. -/
theorem wakeOne_quiet (a : QueueAddr) (s : Kernel) : Quiet p s (wakeOne a s).2 := by
  unfold wakeOne
  split
  · exact .refl p s
  · rename_i c rest hq
    refine Quiet.trans (t := {s with
      queue := Function.update s.queue a rest
      blockQueue := Function.update s.blockQueue c none
      userContext := Function.update s.userContext c ((s.userContext c).setResult SUCCESS)
      log := s.log++[.woken c (.pop a)]}) ?_
      ((makeReady_untouched _ _).quiet (makeReady_current _ _))
    refine ⟨⟨fun q _ hl => hl,fun q _ hw => waiting_shrink hw (rest_subset hq) (fun _ => rfl),
      fun q _ => ?_,fun q _ => rfl⟩,rfl,rfl⟩
    by_cases hqc : q=c
    · rw [hqc]
      refine .inr ⟨.inl ⟨a,?_⟩,SUCCESS,Function.update_self ..⟩
      rw [hq]
      exact List.mem_cons_self
    · exact .inl (Function.update_of_ne hqc ..)

/-- The rounds of WakeAll save no stack. -/
theorem wakeRounds_quiet (a : QueueAddr) (n : ℕ) (s : Kernel) :
    Quiet p s ((fun s => (wakeOne a s).2)^[n] s) := by
  induction n generalizing s with
  | zero => exact .refl p s
  | succ n ih =>
    rw [Function.iterate_succ_apply]
    exact (wakeOne_quiet a s).trans (ih _)

/-- Waking a whole queue saves no stack. -/
theorem wakeAll_quiet (a : QueueAddr) (s : Kernel) : Quiet p s (wakeAll a s) :=
  wakeRounds_quiet a _ s

/-- Releasing a lock saves no stack. -/
theorem lockRelease_quiet (i : ℕ) (l : LockState) (s : Kernel) : Quiet p s (lockRelease i l s) := by
  have hclear : Quiet p s (clearOwner i l s) :=
    Untouched.quiet ⟨rfl,rfl,fun _ => rfl,rfl,rfl⟩ rfl
  have hwake := hclear.trans (wakeOne_quiet (.lockWaiters i) (clearOwner i l s))
  unfold lockRelease
  split
  · exact hwake.trans (Untouched.quiet ⟨rfl,rfl,fun _ => rfl,rfl,rfl⟩ rfl)
  · exact hwake

/-- The locks of an exiting process are released. -/
theorem releaseLoop_quiet (c : PcbPtr) (l : List ℕ) (s : Kernel) :
    Quiet p s (l.foldl (releaseIfOwned c) s) := by
  induction l generalizing s with
  | nil => exact .refl p s
  | cons i rest ih =>
    refine Quiet.trans ?_ (ih _)
    unfold releaseIfOwned
    split
    · split
      · exact lockRelease_quiet i _ s
      · exact .refl p s
    · exact .refl p s

end Wakers

section Terminals

/-- The writers of the terminals when one terminal changes otherwise. -/
theorem setTerminal_writers {v : TtyState} (hv : v.writer=(s.terminals i).writer) (j : ℕ) :
    (Function.update s.terminals i v j).writer=(s.terminals j).writer := by
  by_cases hj : j=i
  · rw [hj,Function.update_self,hv]
  · rw [Function.update_of_ne hj]

/-- The writer of a terminal changes. -/
theorem waiting_setWriter {v : TtyState} (h : Waiting t q) (hq : ∀ a,∀ q∈t.queue a,q∈s.queue a)
    (ht : t.terminals=Function.update s.terminals i v)
    (hv : q≠0 → v.writer=q → Waiting s q) : Waiting s q := by
  rcases h with ⟨a,ha⟩|⟨h0,j,hj⟩
  · exact .inl ⟨a,hq a q ha⟩
  · rw [ht] at hj
    by_cases hji : j=i
    · rw [hji,Function.update_self] at hj
      exact hv h0 hj
    · rw [Function.update_of_ne hji] at hj
      exact .inr ⟨h0,j,hj⟩

/-- A queued writer takes over. -/
theorem nextWriter_quiet {c : PcbPtr} {rest : List PcbPtr} (hq : s.queue (.writeQueue i)=c::rest) :
    Quiet p s (nextWriter i c rest s) := by
  refine ⟨⟨fun q _ hl => hl,fun q _ hw => ?_,fun q _ => .inl rfl,fun q _ => rfl⟩,rfl,rfl⟩
  refine waiting_setWriter hw (rest_subset hq) rfl (fun _ hcq => .inl ⟨.writeQueue i,?_⟩)
  rw [hq,←hcq]
  exact List.mem_cons_self

/-- A writer without bytes left goes. -/
theorem finishWriter_quiet (i : ℕ) (s : Kernel) : Quiet p s (finishWriter i s) := by
  refine Quiet.trans (t := {s with
    terminals := Function.update s.terminals i {s.terminals i with writer := 0}
    log := s.log++[.woken (s.terminals i).writer (.written i)]}) ?_
    ((makeReady_untouched _ _).quiet (makeReady_current _ _))
  refine ⟨⟨fun q _ hl => hl,fun q _ hw => ?_,fun q _ => .inl rfl,fun q _ => rfl⟩,rfl,rfl⟩
  exact waiting_setWriter hw (fun _ _ hq => hq) rfl (fun h0 hcq => absurd hcq.symm h0)

/-- A chunk is passed to the hardware. -/
theorem ttyTransmit_quiet (i : ℕ) (s : Kernel) : Quiet p s (ttyTransmit M i s) :=
  Untouched.quiet ⟨rfl,rfl,setTerminal_writers rfl,rfl,rfl⟩ rfl

/-- Starting the queued writes saves no stack and keeps the processor. -/
theorem startWriteFrom_quiet (i n : ℕ) (s : Kernel) : Quiet p s (startWriteFrom M i n s) := by
  induction n generalizing s with
  | zero => exact .refl p s
  | succ n ih =>
    unfold startWriteFrom
    split
    · exact .refl p s
    · split
      · split
        · exact .refl p s
        · rename_i c rest hq
          split
          · exact ((nextWriter_quiet hq).trans (finishWriter_quiet i _)).trans (ih _)
          · exact (nextWriter_quiet hq).trans (ttyTransmit_quiet i _)
      · split
        · exact (finishWriter_quiet i s).trans (ih _)
        · exact ttyTransmit_quiet i s

/-- The busy flag is cleared. -/
theorem transmitDone_quiet (i : ℕ) (s : Kernel) : Quiet p s (transmitDone i s) :=
  Untouched.quiet ⟨rfl,rfl,setTerminal_writers rfl,rfl,rfl⟩ rfl

/-- A writer gets its result. -/
theorem completeWriter_quiet (hw : (s.terminals i).writer≠0) : Quiet p s (completeWriter i s) := by
  refine Quiet.trans (t := s.setUserContext (s.terminals i).writer
    ((s.userContext (s.terminals i).writer).setResult (s.tty (s.terminals i).writer).writeLen)) ?_
    (finishWriter_quiet i _)
  refine ⟨⟨fun q _ hl => hl,fun q _ hq => hq,fun q _ => ?_,fun q _ => rfl⟩,rfl,rfl⟩
  by_cases hqw : q=(s.terminals i).writer
  · rw [hqw]
    exact .inr ⟨.inr ⟨hw,i,rfl⟩,_,Function.update_self ..⟩
  · exact .inl (Function.update_of_ne hqw ..)

/-- TrapTtyTransmit saves no stack and leaves the processor with the running process. -/
theorem trapTtyTransmit_quiet (u : UserContext) (s : Kernel) :
    Quiet p s (trapTtyTransmit M u s) := by
  have hdone := transmitDone_quiet (p := p) u.code.toNat s
  unfold trapTtyTransmit ttyStartWrite
  split
  · exact .refl p s
  · split
    · exact hdone.trans (startWriteFrom_quiet _ _ _)
    · rename_i hw
      split
      · refine (hdone.trans (completeWriter_quiet ?_)).trans (startWriteFrom_quiet _ _ _)
        have he : ((transmitDone u.code.toNat s).terminals u.code.toNat).writer=
            (s.terminals u.code.toNat).writer :=
          setTerminal_writers (v := {s.terminals u.code.toNat with busy := false}) rfl _
        rw [he]
        exact hw
      · exact hdone.trans (startWriteFrom_quiet _ _ _)

/-- TrapTtyReceive saves no stack and leaves the processor with the running process. -/
theorem trapTtyReceive_quiet (u : UserContext) (s : Kernel) :
    Quiet p s (trapTtyReceive M env u s) := by
  unfold trapTtyReceive
  split
  · exact .refl p s
  · split
    · exact .refl p s
    · split
      · exact .refl p s
      · split
        · rename_i c rest hq
          refine Quiet.trans (t := {s with
            queue := Function.update s.queue (.readQueue u.code.toNat) rest
            blockQueue := Function.update s.blockQueue c none
            tty := Function.update s.tty c {s.tty c with
              readLine := some ⟨s.stamp,env.ttyReceive.toNat,0,env.ttyData⟩}
            stamp := s.stamp+1
            log := s.log++[.ttyReceived u.code.toNat s.stamp env.ttyReceive.toNat env.ttyData,
              .woken c (.pop (.readQueue u.code.toNat))]}) ?_
            ((makeReady_untouched _ _).quiet (makeReady_current _ _))
          exact ⟨⟨fun q _ hl => hl,
            fun q _ hw => waiting_shrink hw (rest_subset hq) (fun _ => rfl),
            fun q _ => .inl rfl,fun q _ => rfl⟩,rfl,rfl⟩
        · exact Untouched.quiet ⟨rfl,rfl,setTerminal_writers rfl,rfl,rfl⟩ rfl

end Terminals

section Lifetimes

/-- Orphaning the children leaves stopped processes as they are. -/
theorem orphanChildren_untouched (c : PcbPtr) (l : List PcbPtr) (s : Kernel) :
    Untouched s (orphanChildren c l s) ∧
      (orphanChildren c l s).currentProcess=s.currentProcess := by
  induction l generalizing s with
  | nil => exact ⟨.refl s,rfl⟩
  | cons d rest ih =>
    obtain ⟨hu,hc⟩ := ih {s with
      children := Function.update s.children c rest
      parent := Function.update s.parent d 0}
    refine ⟨Untouched.trans ?_ hu,hc⟩
    exact ⟨rfl,rfl,fun _ => rfl,rfl,rfl⟩

/-- Unlinking from the children of a parent. -/
theorem leaveParent_untouched (c : PcbPtr) (s : Kernel) :
    Untouched s (leaveParent c s) ∧ (leaveParent c s).currentProcess=s.currentProcess := by
  unfold leaveParent
  split
  · exact ⟨⟨rfl,rfl,fun _ => rfl,rfl,rfl⟩,rfl⟩
  · exact ⟨.refl s,rfl⟩

/-- Unlinking a process from its queue saves no stack. -/
theorem leaveBlockQueue_quiet (c : PcbPtr) (s : Kernel) : Quiet p s (leaveBlockQueue c s) := by
  unfold leaveBlockQueue
  split
  · exact .refl p s
  · rename_i a ha
    split
    · refine ⟨⟨fun q _ hl => hl,fun q _ hw => waiting_shrink hw (fun b q hq => ?_) (fun _ => rfl),
        fun q _ => .inl rfl,fun q _ => rfl⟩,rfl,rfl⟩
      dsimp only at hq
      by_cases hb : b=a
      · rw [hb,Function.update_self] at hq
        rw [hb]
        exact List.mem_of_mem_erase hq
      · rw [Function.update_of_ne hb] at hq
        exact hq
    · exact .refl p s

/-- ProcessDestroy saves no stack and leaves the processor with the running process. -/
theorem processDestroy_quiet (c : PcbPtr) (s : Kernel) : Quiet p s (processDestroy M c s) := by
  unfold processDestroy
  split
  · exact .refl p s
  · obtain ⟨hl,hlc⟩ := leaveParent_untouched c s
    obtain ⟨ho,hoc⟩ :=
      orphanChildren_untouched c ((leaveParent c s).children c) (leaveParent c s)
    have hr : Quiet p s (leaveReady c (orphanChildren c ((leaveParent c s).children c)
        (leaveParent c s))) :=
      ((hl.trans ho).quiet (hoc.trans hlc)).trans
        (Untouched.quiet ⟨rfl,rfl,fun _ => rfl,rfl,rfl⟩ rfl)
    refine (hr.trans (leaveBlockQueue_quiet c _)).trans ?_
    refine ⟨⟨fun q _ hq => ?_,fun q _ hw => hw,fun q _ => .inl rfl,fun q _ => rfl⟩,rfl,rfl⟩
    dsimp only [releaseProcess] at hq
    by_cases hqc : q=c
    · rw [hqc,Function.update_self] at hq
      cases hq
    · rw [Function.update_of_ne hqc] at hq
      exact hq

/-- The current process becomes a zombie. -/
theorem becomeZombie_apart (status : ℤ) (k : KernelContext) (hp : s.currentProcess=p) :
    Apart p s (becomeZombie status k s) ∧ (becomeZombie status k s).kernelContext p=k := by
  subst hp
  have hz : ∀ {w : Kernel},w.live=s.live → w.queue=s.queue → w.terminals=s.terminals →
      w.userContext=s.userContext →
      w.kernelContext=Function.update s.kernelContext s.currentProcess k →
      Apart s.currentProcess s w := by
    intro w hl hq ht hu hk
    refine ⟨fun q _ hlq => ?_,fun q _ hw => ?_,fun q _ => .inl ?_,fun q hqp => ?_⟩
    · rw [hl] at hlq
      exact hlq
    · unfold Waiting at hw
      rw [hq,ht] at hw
      exact hw
    · rw [hu]
    · rw [hk,Function.update_of_ne hqp]
  unfold becomeZombie
  split
  · refine ⟨Apart.trans (hz ?_ ?_ ?_ ?_ ?_) (makeReady_untouched _ _).apart,?_⟩
    rotate_right
    · rw [(makeReady_untouched _ _).saved]
      exact Function.update_self ..
    all_goals rfl
  · exact ⟨hz rfl rfl rfl rfl rfl,Function.update_self ..⟩

end Lifetimes

end Yalnix.ProcessIsolation

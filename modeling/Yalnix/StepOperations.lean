import Yalnix.OperationCoherence
import Mathlib.Logic.Relation

/-!
# Kernel steps as sequences of operations

A system call that returns is a sequence of calm operations; one that gives
up the processor ends with the scheduler. Each kernel function is taken apart
once, so that a property kept by every operation holds in every run.
-/

namespace Yalnix.StepOperations

open Framework FrameTable KernelState Scheduling Ipc Terminals ProcessLifetime ProgramLoading
open Syscalls Traps KernelStart Coherence Operations OperationCoherence

variable {M : Machine} {allow : Label → Prop} {s t v : Kernel}

/-- Sequences of operations that leave the current process executing. -/
abbrev Calm (M : Machine) (allow : Label → Prop) : Kernel → Kernel → Prop :=
  Relation.ReflTransGen (Op M allow true)

/-- Sequences of operations, calm or not. -/
abbrev Ops (M : Machine) (allow : Label → Prop) : Kernel → Kernel → Prop :=
  Relation.ReflTransGen (fun s t => ∃ b,Op M allow b s t)

/-- Calm sequences are sequences of operations. -/
theorem Calm.ops (h : Calm M allow s t) : Ops M allow s t :=
  Relation.ReflTransGen.mono (fun _ _ hop => ⟨true,hop⟩) s t h

/-- Sequences keep the kernel coherent. -/
theorem ops_coherent (h : Coherent M s) (hops : Ops M allow s t) : Coherent M t := by
  induction hops with
  | refl => exact h
  | tail _ hop ih =>
    obtain ⟨b,hop⟩ := hop
    exact op_coherent ih hop

section Activity

/-- Linking a process other than the running one leaves it active. -/
theorem active_markReady (h : Active s) {p : PcbPtr} (hp : p≠s.currentProcess) :
    Active (markReady s p) where
  state := by
    simp only [markReady,Function.update_of_ne hp.symm]
    exact h.state
  unlinked := by
    simp only [markReady,List.mem_append,List.mem_singleton]
    rintro (hm|he)
    · exact h.unlinked hm
    · exact hp he.symm
  running := h.running
  executing := h.executing

/-- A blocked process is not the executing one. -/
theorem blocked_ne_current (h : Active s) {p : PcbPtr} (hp : s.state p=.blocked) :
    p≠s.currentProcess := by
  rintro rfl
  exact h.toRunnable.not_blocked hp

/-- A queued process is not the executing one. -/
theorem queued_ne_current (h : Coherent M s) (ha : Active s) {q : QueueAddr} {w : PcbPtr}
    {rest : List PcbPtr} (hq : s.queue q=w::rest) : w≠s.currentProcess :=
  blocked_ne_current ha (h.block.blocked (by rw [hq]; exact List.mem_cons_self))

/-- Calm operations leave the current process executing. -/
theorem op_active (h : Coherent M s) (ha : Active s) (hop : Op M allow true s t) : Active t := by
  cases hop with
  | toUser u => exact {ha with running := .inl rfl}
  | context p u => exact {ha with}
  | note e => exact {ha with}
  | tick => exact {ha with}
  | begin hr hl hn => exact {ha with executing := by simp [Kernel.setKernelContext]}
  | readRequest i buf len => exact {ha with}
  | writeDone i len hr hk =>
    exact {ha with executing := by simp [Kernel.setKernelContext,Kernel.setTty,Kernel.emit]}
  | clearWaiting ha => exact {ha with}
  | forkFails env m => exact {ha with}
  | forkUndone env c pfns pt m₁ m u ha hc =>
    obtain ⟨h0,hl⟩ := callocPcb_fresh hc
    have hne := dead_ne_current h hl
    rw [destroyed_child h h0 hl]
    refine ⟨⟨?_,ha.unlinked,ha.running⟩,?_⟩
    · simpa [releaseProcess,enterChild,Kernel.setUserContext,Function.update_of_ne hne.symm]
        using ha.state
    · simpa [releaseProcess,enterChild,Kernel.setUserContext,Function.update_of_ne hne.symm]
        using ha.executing
  | spawn env caller c pfns pt m₁ m u hb hc =>
    obtain ⟨h0,hl⟩ := callocPcb_fresh hc
    have hne := dead_ne_current h hl
    have hd : Active ((kcCopy M c ⟨caller,.fork c⟩
        ((enterChild M s.currentProcess c env.newPid pfns pt m s).setUserContext c u)).emit
          (.forked (s.birth s.currentProcess) s.stamp env.newPid)) := by
      refine ⟨⟨?_,ha.unlinked,ha.running⟩,?_⟩
      · simpa [kcCopy,enterChild,Kernel.setUserContext,Kernel.emit,Function.update_of_ne hne.symm]
          using ha.state
      · simpa [kcCopy,enterChild,Kernel.setUserContext,Kernel.emit,Function.update_of_ne hne.symm]
          using ha.executing
    exact active_markReady hd hne
  | respace env m v => exact {ha with}
  | orphan c rest ha hc => exact {ha with}
  | unlock i l ha hl ho hq => exact {ha with}
  | handOff i l w rest u ha hl ho hq =>
    have hd := active_markReady ha (queued_ne_current h ha hq)
    exact {hd with}
  | collect statusPtr c ha hc hz =>
    rw [collectChild_eq h ha statusPtr hc hz]
    exact {ha with}
  | wake q w rest u hn hq =>
    have hd := active_markReady ha (queued_ne_current h ha hq)
    exact {hd with}
  | openPipe env i hi hf => exact {ha with}
  | openLock i hi hf => exact {ha with}
  | openCvar i hi hf => exact {ha with}
  | takeBytes i pipe len ho => exact {ha with}
  | putBytes env i pipe grown buf len ho => exact {ha with}
  | lockTake i l hb ho hl => exact {ha with}
  | lockResume id l hr hk ho hl =>
    exact {ha with executing := by simp [Kernel.setKernelContext,Kernel.emit]}
  | reclaim i hu => exact {ha with}
  | takeHanded i line hk hl =>
    exact {ha with executing := by simp [Kernel.setKernelContext,ttyTakeBytes]}
  | takeLine i line v ha hn => exact {ha with}
  | deliver i line r rest hl hq =>
    have hd := active_markReady ha (queued_ne_current h ha hq)
    exact {hd with}
  | enqueue i line hl hq => exact {ha with}
  | transmitSpurious i hw => exact {ha with}
  | transmitMore i hw => exact {ha with}
  | transmitLast i u hw hf hq =>
    have hd := active_markReady ha (blocked_ne_current ha (writer_blocked h hw))
    exact {hd with}
  | transmitNext i u w rest hw hf hq =>
    have hd := active_markReady ha (blocked_ne_current ha (writer_blocked h hw))
    exact {hd with}

/-- Calm sequences keep the kernel coherent and the current process executing. -/
theorem calm_keeps (h : Coherent M s) (ha : Active s) (hops : Calm M allow s t) :
    Coherent M t ∧ Active t := by
  induction hops with
  | refl => exact ⟨h,ha⟩
  | tail _ hop ih => exact ⟨op_coherent ih.1 hop,op_active ih.1 ih.2 hop⟩

end Activity

section Scheduler

/-- One round of the wake-up loop does nothing or wakes a sleeper. -/
theorem wakeIfOver_cases (h : Coherent M s) (i : ℕ) :
    (¬DelayOver s (s.processTable i) ∧ wakeIfOver s i=s) ∨
      (s.live (s.processTable i)=true ∧ DelayOver s (s.processTable i) ∧
      wakeIfOver s i=markReady {s with
        delayUntil := Function.update s.delayUntil (s.processTable i) 0
        log := s.log++[.woken (s.processTable i)
          (.delay (s.delayUntil (s.processTable i)) s.clockTicks)]} (s.processTable i)) := by
  unfold wakeIfOver
  split
  · rename_i ho
    have hs : s.state (s.processTable i)=.blocked := ho.2.1
    refine .inr ⟨(h.table i ho.1).1,ho,processMakeReady_eq ho.1 ?_ ?_ ?_⟩
    · exact h.ready.ne_idle (by rw [hs]; decide)
    · show s.state (s.processTable i)≠.zombie
      rw [hs]
      decide
    · exact h.ready.unlinked (by rw [hs]; decide)
  · rename_i ho
    exact .inl ⟨ho,rfl⟩

/-- One round of the wake-up loop as operations. -/
theorem wakeIfOver_ops (h : Coherent M s) (i : ℕ) : Ops M allow s (wakeIfOver s i) := by
  rcases wakeIfOver_cases h i with ⟨_,he⟩|⟨hl,ho,he⟩
  · rw [he]
  · rw [he]
    exact .single ⟨false,.sleepOver _ hl ho⟩

/-- The wake-up loop as operations. -/
theorem wakeLoop_ops (h : Coherent M s) (l : List ℕ) :
    Ops M allow s (l.foldl wakeIfOver s) := by
  induction l generalizing s with
  | nil => exact .refl
  | cons i rest ih =>
    have hw : Ops M allow s (wakeIfOver s i) := wakeIfOver_ops h i
    exact hw.trans (ih (ops_coherent h hw))

/-- A round of the loop changes neither the current process nor saved stacks. -/
@[simp]
theorem wakeIfOver_currentProcess (i : ℕ) :
    (wakeIfOver s i).currentProcess=s.currentProcess := by
  unfold wakeIfOver processMakeReady
  split
  · split
    · rfl
    · split <;> rfl
  · rfl

/-- A round of the loop does not touch saved kernel stacks. -/
@[simp]
theorem wakeIfOver_kernelContext (i : ℕ) : (wakeIfOver s i).kernelContext=s.kernelContext := by
  unfold wakeIfOver processMakeReady
  split
  · split
    · rfl
    · split <;> rfl
  · rfl

/-- The loop does not change the current process. -/
@[simp]
theorem wakeLoop_currentProcess (l : List ℕ) :
    (l.foldl wakeIfOver s).currentProcess=s.currentProcess := by
  induction l generalizing s with
  | nil => rfl
  | cons i rest ih => rw [List.foldl_cons,ih,wakeIfOver_currentProcess]

/-- A round of the loop does not stop the machine. -/
@[simp]
theorem wakeIfOver_cpu (i : ℕ) : (wakeIfOver s i).cpu=s.cpu := by
  unfold wakeIfOver processMakeReady
  split
  · split
    · rfl
    · split <;> rfl
  · rfl

/-- The loop does not stop the machine. -/
@[simp]
theorem wakeLoop_cpu (l : List ℕ) : (l.foldl wakeIfOver s).cpu=s.cpu := by
  induction l generalizing s with
  | nil => rfl
  | cons i rest ih => rw [List.foldl_cons,ih,wakeIfOver_cpu]

/-- A round of the loop keeps idle. -/
@[simp]
theorem wakeIfOver_idleProcess (i : ℕ) : (wakeIfOver s i).idleProcess=s.idleProcess := by
  unfold wakeIfOver processMakeReady
  split
  · split
    · rfl
    · split <;> rfl
  · rfl

/-- The loop keeps idle. -/
@[simp]
theorem wakeLoop_idleProcess (l : List ℕ) :
    (l.foldl wakeIfOver s).idleProcess=s.idleProcess := by
  induction l generalizing s with
  | nil => rfl
  | cons i rest ih => rw [List.foldl_cons,ih,wakeIfOver_idleProcess]

/-- The loop does not touch saved kernel stacks. -/
@[simp]
theorem wakeLoop_kernelContext (l : List ℕ) :
    (l.foldl wakeIfOver s).kernelContext=s.kernelContext := by
  induction l generalizing s with
  | nil => rfl
  | cons i rest ih => rw [List.foldl_cons,ih,wakeIfOver_kernelContext]

/-- The loop makes no process running. -/
theorem wakeLoop_running (l : List ℕ) {p : PcbPtr}
    (h : (l.foldl wakeIfOver s).state p=.running) : s.state p=.running := by
  induction l generalizing s with
  | nil => exact h
  | cons i rest ih =>
    have hw := ih h
    unfold wakeIfOver processMakeReady at hw
    split at hw
    · split at hw
      · exact hw
      · split at hw
        · by_cases hp : p=s.processTable i
          · simp [hp] at hw
          · simpa [Function.update_of_ne hp] using hw
        · by_cases hp : p=s.processTable i
          · simp [hp] at hw
          · simpa [Function.update_of_ne hp] using hw
    · exact hw

/-- Requeueing does nothing or links the running process. -/
theorem requeueCurrent_cases (h : Coherent M s) :
    ((s.currentProcess=s.idleProcess ∨ s.state s.currentProcess≠.running) ∧
      requeueCurrent s=s) ∨ (s.currentProcess≠s.idleProcess ∧
      s.state s.currentProcess=.running ∧ requeueCurrent s=markReady s s.currentProcess) := by
  have h0 := h.ready.ne_null h.ready.current_live
  unfold requeueCurrent
  split
  · rename_i hc
    exact .inr ⟨hc.2.1,hc.2.2,processMakeReady_eq hc.1 hc.2.1 (by rw [hc.2.2]; decide)
      (h.ready.unlinked (by rw [hc.2.2]; decide))⟩
  · rename_i hc
    refine .inl ⟨?_,rfl⟩
    by_cases hi : s.currentProcess=s.idleProcess
    · exact .inl hi
    · exact .inr (fun hr => hc ⟨h0,hi,hr⟩)

/-- Behind the requeueing the current process is idle or not running. -/
theorem requeueCurrent_state (h : Coherent M s) :
    (requeueCurrent s).currentProcess=(requeueCurrent s).idleProcess ∨
      (requeueCurrent s).state (requeueCurrent s).currentProcess≠.running := by
  rcases requeueCurrent_cases h with ⟨hc,he⟩|⟨hi,hst,he⟩
  · rw [he]
    exact hc
  · rw [he]
    exact .inr (by simp [markReady])

/-- ProcessSchedule picks the process that called it, which is not idle. -/
def Repicked (M : Machine) (s : Kernel) : Prop :=
  nextProcess (requeueCurrent (processWakeDelayed M s))=s.currentProcess ∧
    s.currentProcess≠s.idleProcess

/-- Waking a table entry leaves the other sleepers alone. -/
theorem wakeIfOver_others (h : Coherent M s) {i j : ℕ} (hij : j≠i) :
    (wakeIfOver s i).processTable=s.processTable ∧
      (DelayOver (wakeIfOver s i) (s.processTable j) ↔ DelayOver s (s.processTable j)) := by
  rcases wakeIfOver_cases h i with ⟨_,he⟩|⟨hl,ho,he⟩
  · rw [he]
    exact ⟨rfl,Iff.rfl⟩
  · rw [he]
    refine ⟨rfl,?_⟩
    by_cases h0 : s.processTable j=0
    · simp [DelayOver,h0]
    · have hne : s.processTable j≠s.processTable i := by
        intro hj
        have h₁ := (h.table j h0).2.1
        have h₂ := (h.table i ho.1).2.1
        rw [hj,h₂] at h₁
        exact hij (by exact_mod_cast h₁.symm)
      simp [DelayOver,markReady,Function.update_of_ne hne]

/-- The wake-up loop links the due processes in table order. -/
theorem wakeLoop_readyQueue (h : Coherent M s) {l : List ℕ} (hl : l.Nodup) :
    (l.foldl wakeIfOver s).readyQueue=s.readyQueue++
      (l.filter (fun i => DelayOver s (s.processTable i))).map s.processTable := by
  induction l generalizing s with
  | nil => simp
  | cons i rest ih =>
    rw [List.nodup_cons] at hl
    have hc : Coherent M (wakeIfOver s i) :=
      ops_coherent h (wakeIfOver_ops (M := M) h i : Ops M (fun _ => True) s (wakeIfOver s i))
    have hw : ∀ j∈rest,j≠i := by
      rintro j hj rfl
      exact hl.1 hj
    have htab : (wakeIfOver s i).processTable=s.processTable := by
      rcases wakeIfOver_cases h i with ⟨_,he⟩|⟨_,_,he⟩ <;> rw [he]
      rfl
    have hf : rest.filter (fun j => DelayOver (wakeIfOver s i)
        ((wakeIfOver s i).processTable j))=
        rest.filter (fun j => DelayOver s (s.processTable j)) := by
      refine List.filter_congr (fun j hj => ?_)
      rw [htab]
      exact decide_eq_decide.2 (wakeIfOver_others h (hw j hj)).2
    rw [List.foldl_cons,ih hc hl.2,hf,htab]
    rcases wakeIfOver_cases h i with ⟨ho,he⟩|⟨_,ho,he⟩
    · rw [he]
      simp [ho]
    · rw [he]
      simp [markReady,ho]

/-- The first entry of a range that passes a test. -/
theorem filter_range_cons {n i : ℕ} {rest : List ℕ} {P : ℕ → Bool}
    (h : (List.range n).filter P=i::rest) : i<n ∧ P i=true ∧ ∀ j< i,P j=false := by
  have hi : i∈(List.range n).filter P := by rw [h]; exact List.mem_cons_self
  rw [List.mem_filter,List.mem_range] at hi
  refine ⟨hi.1,hi.2,fun j hj => ?_⟩
  cases hp : P j with
  | false => rfl
  | true =>
    have hm : j∈(List.range n).filter P := by
      rw [List.mem_filter,List.mem_range]
      exact ⟨by omega,hp⟩
    have hs : ((List.range n).filter P).Pairwise (·<·) := List.pairwise_lt_range.filter _
    rw [h] at hm hs
    rcases List.mem_cons.1 hm with rfl|hm
    · omega
    · have := (List.pairwise_cons.1 hs).1 j hm
      omega

/-- When ProcessSchedule picks its caller: nobody else is ready or due, and the
caller runs or has slept past its deadline. -/
theorem repicked_cases (h : Coherent M s) (hu : s.currentProcess∉s.readyQueue)
    (hr : Repicked M s) : s.readyQueue=[] ∧
      ((s.state s.currentProcess=.running ∧
          ∀ i<M.maxProcs,¬DelayOver s (s.processTable i)) ∨
        (∃ i<M.maxProcs,s.processTable i=s.currentProcess ∧ DelayOver s s.currentProcess ∧
          ∀ j< i,¬DelayOver s (s.processTable j))) := by
  obtain ⟨hn,hi⟩ := hr
  have hc := h.ready.ne_null h.ready.current_live
  have hw : (processWakeDelayed M s).readyQueue=s.readyQueue++
      ((List.range M.maxProcs).filter (fun i => DelayOver s (s.processTable i))).map
        s.processTable := wakeLoop_readyQueue h List.nodup_range
  have hwc : Coherent M (processWakeDelayed M s) :=
    ops_coherent h (wakeLoop_ops h _ : Ops M (fun _ => True) s (processWakeDelayed M s))
  have hcur : (processWakeDelayed M s).currentProcess=s.currentProcess :=
    wakeLoop_currentProcess _
  have hidle : (processWakeDelayed M s).idleProcess=s.idleProcess := wakeLoop_idleProcess _
  -- Requeueing appends at the tail, so an earlier head stays the choice.
  have hhead : ∀ x xs,(processWakeDelayed M s).readyQueue=x::xs → x=s.currentProcess := by
    intro x xs hx
    have hxl := (hwc.ready.mem x (by rw [hx]; exact List.mem_cons_self)).1
    have hx0 := hwc.ready.ne_null hxl
    rcases requeueCurrent_cases hwc with ⟨_,he⟩|⟨_,_,he⟩
    · rw [he] at hn
      simpa [nextProcess,hx,hx0] using hn
    · rw [he] at hn
      simpa [nextProcess,markReady,hx,hx0] using hn
  have hempty : s.readyQueue=[] := by
    cases hq : s.readyQueue with
    | nil => rfl
    | cons x xs =>
      rw [hq,List.cons_append] at hw
      have := hhead x _ hw
      rw [hq,this] at hu
      exact absurd List.mem_cons_self hu
  refine ⟨hempty,?_⟩
  rw [hempty,List.nil_append] at hw
  cases hf : (List.range M.maxProcs).filter (fun i => DelayOver s (s.processTable i)) with
  | cons i rest =>
    rw [hf,List.map_cons] at hw
    have hx := hhead _ _ hw
    obtain ⟨hlt,hp,hmin⟩ := filter_range_cons hf
    refine .inr ⟨i,hlt,hx,?_,fun j hj => by simpa using hmin j hj⟩
    rw [← hx]
    simpa using hp
  | nil =>
    refine .inl ⟨?_,fun i hi => ?_⟩
    · rw [hf,List.map_nil] at hw
      rcases requeueCurrent_cases hwc with ⟨_,he⟩|⟨_,hst,he⟩
      · rw [he] at hn
        simp [nextProcess,hw,hidle] at hn
        exact absurd hn.symm hi
      · rw [hcur] at hst
        exact wakeLoop_running _ hst
    · have := List.filter_eq_nil_iff.1 hf i (List.mem_range.2 hi)
      simpa using this

/-- The picked process can go on. -/
theorem dispatchNext_runnable (h : Coherent M s) {env : Env} (hs : env.switchOk=true)
    (hk : (s.kernelContext s.currentProcess).point≠.executing) :
    Runnable (dispatchNext M env s) ∧
      ((dispatchNext M env s).kernelContext (dispatchNext M env s).currentProcess).point≠
        .executing := by
  have hlive : s.live (nextProcess s)=true ∧ (s.state (nextProcess s)=.ready ∨
      s.state (nextProcess s)=.running) ∧ nextProcess s∉s.readyQueue.tail := by
    rcases nextProcess_cases h with ⟨hr,hn⟩|⟨rest,hr⟩
    · rw [hn,hr]
      exact ⟨h.ready.idle_live,.inr h.ready.idle_running,by simp⟩
    · have hm := h.ready.mem (nextProcess s) (by rw [hr]; simp)
      have hd := h.ready.nodup
      rw [hr] at hd ⊢
      exact ⟨hm.1,.inl hm.2.2,(List.nodup_cons.1 hd).1⟩
  have h0 := h.ready.ne_null hlive.1
  unfold dispatchNext processSwitch
  by_cases he : nextProcess s=s.currentProcess
  · rw [if_pos (.inr he)]
    rw [he] at hlive
    exact ⟨⟨hlive.2.1.symm,hlive.2.2,.inr rfl⟩,hk⟩
  · rw [if_neg (by simpa [h0] using he),if_pos hs]
    exact ⟨⟨.inl (Function.update_self ..),hlive.2.2,.inr rfl⟩,h.saved.other _ hlive.1 he⟩

/-- The picked process can be resumed. -/
theorem dispatchNext_settled (h : Coherent M s) {env : Env} (hs : env.switchOk=true)
    (hk : (s.kernelContext s.currentProcess).point≠.executing) :
    Settled M (dispatchNext M env s) := by
  have hrun := dispatchNext_runnable h hs hk
  exact ⟨coherent_dispatchNext h env hs hk,hrun.1.unlinked,fun hu => (by cases hu),fun _ => hrun⟩

/-- The scheduler, called with the kernel stack of the current process saved. -/
theorem processSchedule_done (h : Coherent M s) {env : Env} (hs : env.switchOk=true)
    (hc : s.cpu=.user ∨ s.cpu=.kernel)
    (hk : (s.kernelContext s.currentProcess).point≠.executing)
    (ho : Repicked M s → allow .repick) :
    Ops M allow s (processSchedule M env s) ∧ Settled M (processSchedule M env s) := by
  have hw : Ops M allow s (processWakeDelayed M s) := wakeLoop_ops h _
  have hwc := ops_coherent h hw
  have hwk : ((processWakeDelayed M s).kernelContext
      (processWakeDelayed M s).currentProcess).point≠.executing := by
    simpa [processWakeDelayed] using hk
  have hr : Ops M allow (processWakeDelayed M s) (requeueCurrent (processWakeDelayed M s)) ∧
      ((requeueCurrent (processWakeDelayed M s)).kernelContext
        (requeueCurrent (processWakeDelayed M s)).currentProcess).point≠.executing ∧
      (requeueCurrent (processWakeDelayed M s)).cpu=s.cpu ∧
      (requeueCurrent (processWakeDelayed M s)).currentProcess=s.currentProcess ∧
      (requeueCurrent (processWakeDelayed M s)).idleProcess=s.idleProcess := by
    have hcpu : (processWakeDelayed M s).cpu=s.cpu := wakeLoop_cpu _
    have hcur : (processWakeDelayed M s).currentProcess=s.currentProcess :=
      wakeLoop_currentProcess _
    have hidle : (processWakeDelayed M s).idleProcess=s.idleProcess := wakeLoop_idleProcess _
    rcases requeueCurrent_cases hwc with ⟨_,he⟩|⟨hi,hst,he⟩
    · rw [he]
      exact ⟨.refl,hwk,hcpu,hcur,hidle⟩
    · rw [he]
      exact ⟨.single ⟨false,.requeue hi hst⟩,hwk,hcpu,hcur,hidle⟩
  obtain ⟨hrops,hrk,hrcpu,hrcur,hridle⟩ := hr
  have hrc := ops_coherent hwc hrops
  have hop : Op M allow false (requeueCurrent (processWakeDelayed M s)) _ :=
    .dispatch env hs (by rw [hrcpu]; exact hc) hrk (requeueCurrent_state hwc)
      (fun hn hi => ho ⟨by rw [hrcur] at hn; exact hn,by rw [hrcur,hridle] at hi; exact hi⟩)
  exact ⟨(hw.trans hrops).tail ⟨false,hop⟩,dispatchNext_settled hrc hs hrk⟩

end Scheduler

section Returning

/-- What a kernel function does to the state it is called in. -/
def Carried (M : Machine) (allow : Label → Prop) (s : Kernel) : Flow → Prop
  | .returns t _ _ => Calm M allow s t
  | .leaves t => Ops M allow s t ∧ Settled M t

/-- Calm work before a function. -/
theorem Carried.after {f : Flow} (h : Calm M allow s t) (hf : Carried M allow t f) :
    Carried M allow s f := by
  cases f with
  | returns v u rc => exact h.trans hf
  | leaves v => exact ⟨h.ops.trans hf.1,hf.2⟩

/-- A call that blocks its process and schedules is carried. -/
theorem Carried.schedule (h : Coherent M s) {env : Env} (hs : env.switchOk=true)
    (hop : Op M allow false s t) (hc : t.cpu=.user ∨ t.cpu=.kernel)
    (hk : (t.kernelContext t.currentProcess).point≠.executing)
    (ho : Repicked M t → allow .repick) :
    Carried M allow s (.leaves (processSchedule M env t)) := by
  have hd : Ops M allow t (processSchedule M env t) ∧ Settled M (processSchedule M env t) :=
    processSchedule_done (op_coherent h hop) hs hc hk ho
  exact ⟨hd.1.head ⟨false,hop⟩,hd.2⟩

/-- Blocking without a deadline that is over. -/
theorem Carried.block (h : Coherent M s) {env : Env} (hs : env.switchOk=true)
    (hop : Op M allow false s t) (hc : t.cpu=.user ∨ t.cpu=.kernel)
    (hk : (t.kernelContext t.currentProcess).point≠.executing)
    (hu : t.currentProcess∉t.readyQueue) (hst : t.state t.currentProcess≠.running)
    (hd : t.delayUntil t.currentProcess=0 ∨ t.state t.currentProcess=.zombie) :
    Carried M allow s (.leaves (processSchedule M env t)) := by
  refine Carried.schedule h hs hop hc hk (fun hr => ?_)
  rcases (repicked_cases (op_coherent h hop) hu hr).2 with ⟨hrun,_⟩|⟨_,_,_,ho,_⟩
  · exact absurd hrun hst
  · rcases hd with hd|hd
    · exact absurd hd ho.2.2.1
    · have hb := ho.2.1
      rw [hd] at hb
      cases hb

/-- The executing process has no deadline. -/
theorem no_deadline (h : Coherent M s) (ha : Active s) : s.delayUntil s.currentProcess=0 := by
  by_contra hne
  exact no_reason h h.ready.current_live ha.toRunnable.not_blocked .delay hne

/-- A coherent kernel that returns to user mode is settled. -/
theorem settled_user (h : Coherent M s) (ha : Active s) (u : UserContext) :
    Settled M (returnToUser u s) :=
  ⟨{h with},ha.unlinked,fun _ => {ha with running := .inl rfl},fun hk => (by cases hk)⟩

/-- A machine that stops is settled. -/
theorem settled_stopped (h : Coherent M s) (ha : Active s) {c : Cpu} (hu : c≠.user)
    (hk : c≠.kernel) : Settled M {s with cpu := c} :=
  ⟨{h with},ha.unlinked,fun he => absurd he hu,fun he => absurd he hk⟩

/-- The tail of the kernel trap is calm. -/
theorem trapKernelReturn_done (h : Coherent M s) (ha : Active s) (caller : PcbPtr)
    (u : UserContext) : Calm M allow s (trapKernelReturn caller u s) ∧
      Settled M (trapKernelReturn caller u s) := by
  unfold trapKernelReturn
  split
  · have hop : Op M allow true s (s.setUserContext s.currentProcess u) := .context _ _
    exact ⟨(Relation.ReflTransGen.single hop).tail (.toUser u (op_active h ha hop)),
      settled_user (op_coherent h hop) (op_active h ha hop) u⟩
  · split
    · exact ⟨.single (.toUser _ ha),settled_user h ha _⟩
    · exact ⟨.single (.toUser _ ha),settled_user h ha _⟩

/-- A system call up to the return to user mode. -/
theorem finish_done (h : Coherent M s) (ha : Active s) (caller : PcbPtr) {f : Flow}
    (hf : Carried M allow s f) :
    Ops M allow s (finish caller f) ∧ Settled M (finish caller f) := by
  cases f with
  | returns t u rc =>
    obtain ⟨hc,hact⟩ := calm_keeps h ha hf
    have hd : Calm M allow t _ ∧ _ := trapKernelReturn_done hc hact caller (u.setResult rc)
    exact ⟨(Calm.ops hf).trans (Calm.ops hd.1),hd.2⟩
  | leaves t => exact hf

/-- Exec up to the return to user mode. -/
theorem finishExec_done (h : Coherent M s) (ha : Active s) (caller : PcbPtr) {f : Flow}
    (hf : Carried M allow s f) :
    Ops M allow s (finishExec caller f) ∧ Settled M (finishExec caller f) := by
  cases f with
  | returns t u rc =>
    obtain ⟨hc,hact⟩ := calm_keeps h ha hf
    unfold finishExec
    dsimp only
    split
    · have hd : Calm M allow t _ ∧ _ :=
        trapKernelReturn_done hc hact caller (t.userContext t.currentProcess)
      exact ⟨(Calm.ops hf).trans (Calm.ops hd.1),hd.2⟩
    · have hd : Calm M allow t _ ∧ _ := trapKernelReturn_done hc hact caller (u.setResult ERROR)
      exact ⟨(Calm.ops hf).trans (Calm.ops hd.1),hd.2⟩
  | leaves t => exact hf

end Returning

end Yalnix.StepOperations

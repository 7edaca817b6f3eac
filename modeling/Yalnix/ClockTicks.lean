import Yalnix.KernelEntries
import Yalnix.Continuations

/-!
# What a clock tick does

The loop over the process table makes the processes ready whose delay is over,
in the order of their identifiers. Behind them goes the process that was
running. The first of all these is picked.
-/

namespace Yalnix.ClockTicks

open Framework FrameTable KernelState Scheduling Ipc Terminals ProcessLifetime ProgramLoading
open Syscalls Traps KernelStart Coherence Operations OperationCoherence StepOperations
open CallOperations RunInvariants Traces KernelEntries Continuations

variable {M : Machine} {env : Env} {s t : Kernel} {p : PcbPtr} {u : UserContext}

/-- The processes of some table entries whose delay is over. -/
def overdue (s : Kernel) (l : List ℕ) : List PcbPtr :=
  (l.filter (fun i => DelayOver s (s.processTable i))).map s.processTable

/-- The processes that the scheduler wakes. -/
def due (M : Machine) (s : Kernel) : List PcbPtr := overdue s (List.range M.maxProcs)

/-- The process that was running. -/
def requeued (s : Kernel) : List PcbPtr :=
  if s.currentProcess≠s.idleProcess ∧ s.state s.currentProcess=.running then [s.currentProcess]
  else []

/-- All processes that the scheduler can pick, in order. -/
def lineUp (M : Machine) (s : Kernel) : List PcbPtr := s.readyQueue++due M s++requeued s

/-- The process that the scheduler picks. -/
def pick (M : Machine) (s : Kernel) : PcbPtr := (lineUp M s).headD s.idleProcess

/-- One of the processes changes before the others do. -/
theorem update_cons {α : Type} (f : PcbPtr → α) (a : α) (q : PcbPtr) (l : List PcbPtr) :
    (fun p => if p∈l then a else Function.update f q a p)=
      fun p => if p∈q::l then a else f p := by
  funext p
  by_cases hp : p=q
  · rw [hp,Function.update_self,if_pos List.mem_cons_self]
    exact ite_self _
  · rw [Function.update_of_ne hp]
    simp only [List.mem_cons,hp,false_or]

/-- The loop over the table makes ready whom it finds over, and nothing else. -/
theorem wakeLoop_exact (hc : Coherent M s) {l : List ℕ} (hl : l.Nodup) :
    ∃ log,l.foldl wakeIfOver s={s with
      state := fun p => if p∈overdue s l then .ready else s.state p
      delayUntil := fun p => if p∈overdue s l then 0 else s.delayUntil p
      readyQueue := s.readyQueue++overdue s l
      log := log} := by
  induction l generalizing s with
  | nil =>
    refine ⟨s.log,?_⟩
    simp [overdue]
  | cons i rest ih =>
    rw [List.nodup_cons] at hl
    have hc' : Coherent M (wakeIfOver s i) :=
      ops_coherent hc (wakeIfOver_ops (M := M) hc i : Ops M (fun _ => True) s (wakeIfOver s i))
    obtain ⟨log,he⟩ := ih hc' hl.2
    have hrest : overdue (wakeIfOver s i) rest=overdue s rest := by
      have htab : (wakeIfOver s i).processTable=s.processTable := by
        rcases wakeIfOver_cases hc i with ⟨_,he⟩|⟨_,_,he⟩
        · rw [he]
        · rw [he]
          rfl
      unfold overdue
      rw [htab]
      refine congrArg (List.map s.processTable) (List.filter_congr (fun j hj => ?_))
      refine decide_eq_decide.2 (wakeIfOver_others hc ?_).2
      rintro rfl
      exact hl.1 hj
    rw [List.foldl_cons,he,hrest]
    rcases wakeIfOver_cases hc i with ⟨ho,hsame⟩|⟨_,ho,hready⟩
    · have hover : overdue s (i::rest)=overdue s rest := by
        unfold overdue
        rw [List.filter_cons_of_neg (by simpa using ho)]
      rw [hsame,hover]
      exact ⟨log,rfl⟩
    · have hover : overdue s (i::rest)=s.processTable i::overdue s rest := by
        unfold overdue
        rw [List.filter_cons_of_pos (by simpa using ho),List.map_cons]
      rw [hready,hover]
      refine ⟨log,?_⟩
      unfold markReady
      dsimp only
      rw [update_cons,update_cons,List.append_assoc,List.singleton_append]

/-- The running process other than idle is requeued, and nothing else changes. -/
theorem requeue_exact (hc : Coherent M s) : ∃ log,requeueCurrent s={s with
    state := fun p => if p∈requeued s then .ready else s.state p
    readyQueue := s.readyQueue++requeued s
    log := log} := by
  unfold requeued
  rcases requeueCurrent_cases hc with ⟨hn,he⟩|⟨hi,hr,he⟩
  · refine ⟨s.log,?_⟩
    have hcond : ¬(s.currentProcess≠s.idleProcess ∧ s.state s.currentProcess=.running) := by
      rintro ⟨hi,hr⟩
      rcases hn with hn|hn
      · exact hi hn
      · exact hn hr
    rw [he,if_neg hcond,List.append_nil]
    simp only [List.not_mem_nil,if_false]
  · rw [he,if_pos ⟨hi,hr⟩]
    refine ⟨s.log++[.linked s.currentProcess],?_⟩
    have hcons := update_cons s.state .ready s.currentProcess []
    simp only [List.not_mem_nil,if_false] at hcons
    unfold markReady
    rw [←hcons]

/-- The next process is the first of the ready queue, or idle. -/
theorem nextProcess_head (hc : Coherent M s) : nextProcess s=s.readyQueue.headD s.idleProcess := by
  rcases nextProcess_cases hc with ⟨hr,hn⟩|⟨rest,hr⟩
  · rw [hn,hr]
    rfl
  · rw [hr]
    rfl

/-- The process that was running is none of those that are woken. -/
theorem requeued_woken (M : Machine) (s : Kernel) {x : Kernel}
    (hi : x.currentProcess=s.currentProcess ∧ x.idleProcess=s.idleProcess)
    (hx : x.state=fun p => if p∈due M s then .ready else s.state p) : requeued x=requeued s := by
  have hrun : x.state s.currentProcess=.running ↔ s.state s.currentProcess=.running := by
    rw [hx]
    dsimp only
    by_cases hm : s.currentProcess∈due M s
    · obtain ⟨i,hf,hp⟩ := List.mem_map.1 hm
      obtain ⟨_,hb,_⟩ := of_decide_eq_true (List.mem_filter.1 hf).2
      rw [hp] at hb
      rw [if_pos hm,hb]
      exact ⟨fun h => (by cases h),fun h => (by cases h)⟩
    · rw [if_neg hm]
  unfold requeued
  rw [hi.1,hi.2]
  exact if_congr (and_congr_right' hrun) rfl rfl

/-- All who are ready before the scheduler picks. -/
theorem lineUp_exact (hc : Coherent M s) :
    Coherent M (requeueCurrent (processWakeDelayed M s)) ∧
      ∃ log,requeueCurrent (processWakeDelayed M s)={s with
        state := fun p => if p∈due M s++requeued s then .ready else s.state p
        delayUntil := fun p => if p∈due M s then 0 else s.delayUntil p
        readyQueue := lineUp M s
        log := log} := by
  obtain ⟨log₁,hwake⟩ := wakeLoop_exact hc (List.nodup_range (n := M.maxProcs))
  have hwc : Coherent M (processWakeDelayed M s) :=
    ops_coherent hc (wakeLoop_ops hc (List.range M.maxProcs) : Ops M (fun _ => True) _ _)
  obtain ⟨log₂,hreq⟩ := requeue_exact hwc
  have hsame : requeued (processWakeDelayed M s)=requeued s := by
    refine requeued_woken M s ?_ ?_
    · unfold processWakeDelayed
      rw [hwake]
      exact ⟨rfl,rfl⟩
    · unfold processWakeDelayed
      rw [hwake]
      rfl
  constructor
  · rcases requeueCurrent_cases hwc with ⟨_,he⟩|⟨hi,hr,he⟩
    · rwa [he]
    · have hop : Op M (fun _ => True) false (processWakeDelayed M s) _ := .requeue hi hr
      rw [he]
      exact op_coherent hwc hop
  · refine ⟨log₂,?_⟩
    have hstate : (fun p => if p∈requeued s then ProcState.ready
        else if p∈due M s then .ready else s.state p)=
          fun p => if p∈due M s++requeued s then .ready else s.state p := by
      funext p
      by_cases hr : p∈requeued s
      · rw [if_pos hr,if_pos (List.mem_append_right _ hr)]
      · rw [if_neg hr]
        exact if_congr (by simp [hr]) rfl rfl
    rw [hreq,hsame,←hstate]
    unfold processWakeDelayed
    rw [hwake]
    rfl

/-- Region 0 behind ProcessSchedule: the kernel stack of the process that it
picks is installed, unless that process is the running one. -/
def pickedRegion0 (M : Machine) (s : Kernel) : PageTable :=
  if pick M s=s.currentProcess then s.memory.kernelRegion0Pt
  else installKernelStack M (s.space (pick M s)).kernelStackPfns (List.range M.kernelStackPages)
    s.memory.kernelRegion0Pt

/-- ProcessSchedule, field by field: it wakes whose delay is over, requeues the
process that was running and picks the first of all who are ready. A process
that is picked again at once is not marked as running. -/
theorem schedule_exact (hc : Coherent M s) (hs : env.switchOk=true) :
    ∃ log,processSchedule M env s={s with
      state := fun p => if p=pick M s ∧ p≠s.currentProcess then .running
        else if p∈due M s++requeued s then .ready else s.state p
      delayUntil := fun p => if p∈due M s then 0 else s.delayUntil p
      currentProcess := pick M s
      readyQueue := (lineUp M s).tail
      memory := {s.memory with kernelRegion0Pt := pickedRegion0 M s}
      cpu := .kernel
      log := log} := by
  obtain ⟨hrc,log,hreq⟩ := lineUp_exact hc
  have hd := dispatchNext_eq hrc hs
  have hnext := nextProcess_head hrc
  rw [hreq] at hnext hd
  change nextProcess _=pick M s at hnext
  rw [hnext] at hd
  have hstate : (if pick M s=s.currentProcess then
        (fun p => if p∈due M s++requeued s then ProcState.ready else s.state p)
      else Function.update (fun p => if p∈due M s++requeued s then ProcState.ready else s.state p)
        (pick M s) .running)=fun p => if p=pick M s ∧ p≠s.currentProcess then .running
          else if p∈due M s++requeued s then .ready else s.state p := by
    funext p
    by_cases hp : pick M s=s.currentProcess
    · rw [if_pos hp]
      exact (if_neg (fun h => h.2 (h.1.trans hp))).symm
    · rw [if_neg hp]
      by_cases he : p=pick M s
      · rw [he,Function.update_self,if_pos ⟨rfl,hp⟩]
      · rw [Function.update_of_ne he]
        exact (if_neg (fun h => he h.1)).symm
  unfold switchedRegion0 at hd
  rw [hnext] at hd
  unfold processSchedule pickedRegion0
  rw [hreq,hd]
  dsimp only
  rw [hstate]
  exact ⟨_,rfl⟩

/-- A clock trap, field by field: it wakes whose delay is over, requeues the
process that was running and picks the first of all who are ready, and the
registers of the process that was interrupted are saved. In Region 0 only the
kernel stack of the next process is installed. -/
theorem clock_tick (h : Reachable M s) (hu : s.cpu=.user) (hs : env.switchOk=true)
    (hv : u.vector=.clock) : ∃ log,kernelStep M env s (.trap u)={s with
      state := fun p => if p=pick M (tickClock s) ∧ p≠s.currentProcess then .running
        else if p∈due M (tickClock s)++requeued s then .ready else s.state p
      delayUntil := fun p => if p∈due M (tickClock s) then 0 else s.delayUntil p
      userContext := Function.update s.userContext s.currentProcess u
      kernelContext := Function.update s.kernelContext s.currentProcess ⟨s.currentProcess,.clock⟩
      currentProcess := pick M (tickClock s)
      readyQueue := (lineUp M (tickClock s)).tail
      clockTicks := (s.clockTicks+1)%2^32
      memory := {s.memory with kernelRegion0Pt := pickedRegion0 M (tickClock s)}
      cpu := .kernel
      log := log} := by
  have hset := reachable_settled h
  have hsave : saveContext u s=s.setUserContext s.currentProcess u :=
    saveContext_current u (hset.ready.ne_null hset.ready.current_live)
  have hcalm : Calm M (fun _ => True) s (tickClock (saveContext u s)) :=
    (saveContext_calm u).tail .tick
  obtain ⟨htc,hta⟩ := calm_keeps hset.toCoherent (hset.user hu) hcalm
  have hop : Op M (fun _ => True) false (tickClock (saveContext u s)) _ := .preempt hta
  have hpc := op_coherent htc hop
  rw [hsave] at hpc
  obtain ⟨log,he⟩ := schedule_exact hpc hs
  refine ⟨log,?_⟩
  dsimp only [kernelStep,trap]
  rw [hv]
  dsimp only [trapClock]
  rw [hsave]
  exact he

/-- The initial process sleeps for one tick while its child runs. The tick wakes
it, puts the child behind it and takes it up. -/
theorem clock_tick_turn : ∃ s,Reachable sampleMachine s ∧ s.currentProcess=3 ∧
    s.state 2=.blocked ∧ s.delayUntil 2=1 ∧
    (kernelStep sampleMachine (sampleEnv 0 0) s tickInput.2).currentProcess=2 ∧
    (kernelStep sampleMachine (sampleEnv 0 0) s tickInput.2).delayUntil 2=0 ∧
    (kernelStep sampleMachine (sampleEnv 0 0) s tickInput.2).readyQueue=[3] := by
  obtain ⟨s,hr,hq⟩ := replay_reachable sampleBoot_user [forkInput 3 2,callInput 7 1 0 0,resumeInput]
    (fun s => s.cpu=.user ∧ s.currentProcess=3 ∧ s.state 2=.blocked ∧ s.delayUntil 2=1 ∧
      pick sampleMachine (tickClock s)=2 ∧ 2∈due sampleMachine (tickClock s) ∧
      (lineUp sampleMachine (tickClock s)).tail=[3]) (by decide +kernel)
  simp only [decide_eq_true_eq] at hq
  obtain ⟨hu,hc,hb,hd,hp,hm,hl⟩ := hq
  obtain ⟨log,hstep⟩ :=
    @clock_tick _ (sampleEnv 0 0) s (sampleContext .clock 0 0 0 0) hr hu rfl rfl
  change kernelStep sampleMachine (sampleEnv 0 0) s tickInput.2=_ at hstep
  refine ⟨s,hr,hc,hb,hd,?_,?_,?_⟩
  · rw [hstep]
    exact hp
  · rw [hstep]
    exact if_pos hm
  · rw [hstep]
    exact hl

/-- Idle is picked only when nobody is ready. -/
theorem pick_other (hc : Coherent M s) (hne : lineUp M s≠[]) : pick M s≠s.idleProcess := by
  have hmem : pick M s∈lineUp M s := by
    unfold pick
    cases hl : lineUp M s with
    | nil => exact absurd hl hne
    | cons p rest => exact List.mem_cons_self
  rcases List.mem_append.1 hmem with hm|hm
  · rcases List.mem_append.1 hm with hm|hm
    · exact (hc.ready.mem _ hm).2.1
    · obtain ⟨i,hf,hp⟩ := List.mem_map.1 hm
      obtain ⟨_,hb,_⟩ := of_decide_eq_true (List.mem_filter.1 hf).2
      rw [hp] at hb
      intro hi
      rw [hi] at hb
      cases hb.symm.trans hc.ready.idle_running
  · unfold requeued at hm
    split at hm
    · rename_i hr
      rw [List.mem_singleton.1 hm]
      exact hr.1
    · cases hm

end Yalnix.ClockTicks

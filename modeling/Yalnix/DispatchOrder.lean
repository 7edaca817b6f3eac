import Yalnix.History
import Yalnix.Traces

/-!
# Dispatch safety and order

The ready queue is in order with respect to the links made by
ProcessMakeReady and the picks of ProcessSchedule, and every pick is of a
process that can run.
-/

namespace Yalnix.DispatchOrder

open Framework FrameTable KernelState Scheduling Ipc Terminals ProcessLifetime ProgramLoading
open Syscalls Traps KernelStart Coherence Operations OperationCoherence RunInvariants History
open Traces

variable {M : Machine} {allow : Label → Prop} {s t : Kernel} {idle p : PcbPtr} {cpu : Cpu}
  {log l : List Event} {ready : List PcbPtr}

/-- The process an event links on the ready queue. -/
def linkedBy : Event → List PcbPtr
  | .linked p => [p]
  | _ => []

/-- The process an event takes off the ready queue. -/
def takenBy : Event → List PcbPtr
  | .dispatched _ next _ queue => if queue=[] then [] else [next]
  | _ => []

/-- A pick is of a process that can run, and of idle only from an empty queue. -/
def SafePick (idle : PcbPtr) : Event → Prop
  | .dispatched _ next st queue => st≠.blocked ∧ st≠.zombie ∧ (next=idle → queue=[])
  | _ => True

/-- Events that are neither links nor picks. -/
def Quiet : Event → Prop
  | .linked _ => False
  | .dispatched _ _ _ _ => False
  | _ => True

/-- What the history of links and picks says about the ready queue. -/
structure DispatchOk (idle : PcbPtr) (cpu : Cpu) (log : List Event) (ready : List PcbPtr) :
    Prop where
  /-- Processes are taken in the order in which they were linked. -/
  order : InOrder linkedBy takenBy log ready
  /-- Every pick is safe. -/
  safe : ∀ e∈log,SafePick idle e
  /-- No zombie has been resumed. -/
  awake : cpu≠.aborted "zombie process resumed"

/-- Quiet events neither link nor pick. -/
theorem quiet_nil (h : ∀ e∈l,Quiet e) : l.flatMap linkedBy=[] ∧ l.flatMap takenBy=[] := by
  refine ⟨List.flatMap_eq_nil_iff.2 fun e he => ?_,List.flatMap_eq_nil_iff.2 fun e he => ?_⟩
  · have hq := h e he
    cases e with
    | linked p => exact hq.elim
    | _ => rfl
  · have hq := h e he
    cases e with
    | dispatched old next st queue => exact hq.elim
    | _ => rfl

/-- Events that are neither links nor picks keep the queue as recorded. -/
theorem DispatchOk.quiet (h : DispatchOk idle cpu log ready) (hl : ∀ e∈l,Quiet e) :
    DispatchOk idle cpu (log++l) ready where
  order := h.order.other (quiet_nil hl).1 (quiet_nil hl).2
  safe e he := by
    rcases List.mem_append.1 he with hm|hm
    · exact h.safe e hm
    · have hq := hl e hm
      cases e with
      | dispatched old next st queue => exact hq.elim
      | _ => trivial
  awake := h.awake

/-- A process that is linked stands last in the recorded order. -/
theorem DispatchOk.link (h : DispatchOk idle cpu log ready) :
    DispatchOk idle cpu (log++[.linked p]) (ready++[p]) where
  order := h.order.push rfl rfl
  safe e he := by
    rcases List.mem_append.1 he with hl|hl
    · exact h.safe e hl
    · rw [List.mem_singleton.1 hl]
      trivial
  awake := h.awake

/-- Other events and a link. -/
theorem DispatchOk.wake (h : DispatchOk idle cpu log ready) (hl : ∀ e∈l,Quiet e) :
    DispatchOk idle cpu (log++l++[.linked p]) (ready++[p]) := (h.quiet hl).link

/-- A dispatch is recorded as the pick of the process that was linked first. -/
theorem dispatchOk_dispatch (hc : Coherent M s)
    (h : DispatchOk s.idleProcess s.cpu s.log s.readyQueue) {env : Env} (hs : env.switchOk=true) :
    DispatchOk (dispatchNext M env s).idleProcess (dispatchNext M env s).cpu
      (dispatchNext M env s).log (dispatchNext M env s).readyQueue := by
  have hpick : SafePick s.idleProcess (.dispatched s.currentProcess (nextProcess s)
      (s.state (nextProcess s)) s.readyQueue) := by
    rcases nextProcess_cases hc with ⟨hr,hn⟩|⟨rest,hr⟩
    · rw [hn,hc.ready.idle_running]
      exact ⟨by decide,by decide,fun _ => hr⟩
    · obtain ⟨_,hi,hst⟩ := hc.ready.mem (nextProcess s) (by rw [hr]; simp)
      rw [hst]
      exact ⟨by decide,by decide,fun he => absurd he hi⟩
  have he := dispatchNext_eq hc hs
  rw [he]
  refine ⟨?_,?_,by simp⟩
  · rcases nextProcess_cases hc with ⟨hr,hn⟩|⟨rest,hr⟩
    · have ho := h.order
      rw [hr] at ho ⊢
      exact ho.other rfl rfl
    · have ho := h.order
      rw [hr] at ho ⊢
      exact InOrder.pop (l := [nextProcess s]) ho rfl rfl
  · intro e he
    rcases List.mem_append.1 he with hl|hl
    · exact h.safe e hl
    · rw [List.mem_singleton.1 hl]
      exact hpick

/-- Every operation keeps the history of the scheduler. -/
theorem op_dispatchOk {b : Bool} (hc : Coherent M s)
    (h : DispatchOk s.idleProcess s.cpu s.log s.readyQueue) (hop : Op M allow b s t) :
    DispatchOk t.idleProcess t.cpu t.log t.readyQueue := by
  cases hop with
  | toUser u => exact {h with awake := by simp [returnToUser]}
  | stop c env m v ha hu hk hz => exact {h with awake := hz}
  | note e hn =>
    refine h.quiet (fun e' he => ?_)
    rw [List.mem_singleton.1 he]
    cases e with
    | linked p => exact hn.elim
    | dispatched old next st queue => exact hn.elim
    | _ => trivial
  | tick => exact h.quiet (by simp [Quiet])
  | writeDone i len => exact h.quiet (by simp [Quiet])
  | sleepOver p hl ho => exact h.wake (by simp [Quiet])
  | requeue hi hs => exact h.link
  | dispatch env hs hcpu hk => exact dispatchOk_dispatch hc h hs
  | forkUndone env c pfns pt m₁ m u ha hcp =>
    obtain ⟨h0,hl⟩ := callocPcb_fresh hcp
    rw [destroyed_child hc h0 hl]
    exact h
  | spawn env caller c => exact h.wake (by simp [Quiet])
  | unlock i l => exact h.quiet (by simp [Quiet])
  | handOff i l w rest u =>
    have hw := h.wake (p := w) (l := [.lockReleased l.opened l.owner,
      .woken w (.pop (.lockWaiters i))]) (by simp [Quiet])
    exact hw.quiet (l := [.lockGranted l.opened w]) (by simp [Quiet])
  | zombie status k => exact h.quiet (by simp [Quiet])
  | zombieWake status k => exact h.wake (by simp [Quiet])
  | collect statusPtr c ha hch hz =>
    rw [collectChild_eq hc ha statusPtr hch hz]
    have h₁ := h.quiet (l := if statusPtr=0 then []
      else [.stored s.currentProcess statusPtr 4]) (by split <;> simp [Quiet])
    exact h₁.quiet (l := [_]) (by simp [Quiet])
  | blockLock id l k u => exact h.quiet (by simp [Quiet])
  | blockCvar id lockId cvar lockOpened k u => exact h.quiet (by simp [Quiet])
  | startWrite env i buf len k u =>
    exact (h.quiet (l := [_,_]) (by simp [Quiet])).quiet (l := [_]) (by simp [Quiet])
  | queueWrite env i buf len k u => exact h.quiet (by simp [Quiet])
  | wake q w rest u => exact h.wake (by simp [Quiet])
  | takeBytes i pipe len => exact h.quiet (by simp [Quiet])
  | putBytes env i pipe grown buf len => exact h.quiet (by simp [Quiet])
  | lockTake i l => exact h.quiet (by simp [Quiet])
  | lockResume id l => exact h.quiet (by simp [Quiet])
  | takeHanded i line => exact h.quiet (by simp [Quiet])
  | takeLine i line v => exact h.quiet (by simp [Quiet])
  | deliver i line r rest => exact h.wake (by simp [Quiet])
  | enqueue i line => exact h.quiet (by simp [Quiet])
  | transmitSpurious i => exact h.quiet (by simp [Quiet])
  | transmitMore i =>
    exact (h.quiet (l := [_]) (by simp [Quiet])).quiet (l := [_]) (by simp [Quiet])
  | transmitLast i u => exact h.wake (by simp [Quiet])
  | transmitNext i u w rest =>
    have h₁ := h.wake (p := (s.terminals i).writer)
      (l := [.ttyCompleted i,.woken (s.terminals i).writer (.written i)]) (by simp [Quiet])
    exact (h₁.quiet (l := [_]) (by simp [Quiet])).quiet (l := [_]) (by simp [Quiet])
  | _ => exact h

/-- In every state of every run the ready queue holds ready processes other
than idle and the current one, once each; every pick was of a process neither
blocked nor ended, of idle only from an empty queue and in the order of the
links; and no zombie was resumed. -/
theorem reachable_dispatch (h : Reachable M s) :
    s.readyQueue.Nodup ∧ s.currentProcess∉s.readyQueue ∧
      (∀ p∈s.readyQueue,p≠s.idleProcess ∧ s.state p=.ready) ∧
      (∀ old next st queue,.dispatched old next st queue∈s.log →
        st≠.blocked ∧ st≠.zombie ∧ (next=s.idleProcess → queue=[])) ∧
      s.cpu≠.aborted "zombie process resumed" ∧
      s.log.flatMap linkedBy=s.log.flatMap takenBy++s.readyQueue := by
  obtain ⟨hs,hd⟩ := reachable_invariant
    (P := fun s => DispatchOk s.idleProcess s.cpu s.log s.readyQueue)
    (fun b p q pfn pfns m₁ m₂ m v u _ => ⟨InOrder.empty _ _,fun e he => (by cases he),
      by simp [bootedKernel,returnToUser]⟩)
    (fun c s t hc hp hop => op_dispatchOk hc hp hop) h
  exact ⟨hs.ready.nodup,hs.unlinked,fun p hp => (hs.ready.mem p hp).2,
    fun old next st queue he => hd.safe _ he,hd.awake,hd.order⟩

/-- A fork and the tick behind it link the child and then the parent. -/
theorem reachable_dispatch_fork : ∃ s,Reachable sampleMachine s ∧ s.readyQueue=[2] ∧
    s.log.flatMap linkedBy=s.log.flatMap takenBy++[2] := by
  obtain ⟨s,hr,hq⟩ := replay_reachable sampleBoot_user [forkInput 3 2,tickInput]
    (fun s => s.readyQueue=[2]) (by decide +kernel)
  have hready : s.readyQueue=[2] := by simpa using hq
  obtain ⟨_,_,_,_,_,ho⟩ := reachable_dispatch hr
  rw [hready] at ho
  exact ⟨s,hr,hready,ho⟩

end Yalnix.DispatchOrder

import Yalnix.BlockingReasons
import Yalnix.ObjectReferences

/-!
# Condition variables

The queue of a condition variable holds the processes blocked in CvarWait on
it, in the order in which they blocked. Signal takes the first one off and
Broadcast all of them, and nothing else does. A waiter that goes on takes its
lock or queues for it; it never finds itself the owner already, and as long as
its objects are not reclaimed it returns SUCCESS as the owner of its lock.
-/

namespace Yalnix.ConditionVariables

open Framework FrameTable KernelState Scheduling Ipc Terminals ProcessLifetime ProgramLoading
open Syscalls Traps KernelStart Coherence Operations OperationCoherence StepOperations
open CallOperations RunInvariants Traces History BlockingReasons LockHandoff
open KernelEntries ProcessIsolation UserContexts ObjectReferences

variable {M : Machine} {env : Env} {s t : Kernel} {p q w : PcbPtr} {i : ℕ} {k : KernelContext}
  {rest : List PcbPtr} {allow : Label → Prop} {es : List Event}

/-- Who joins the waiters of a condition variable. -/
def joined (i : ℕ) : Event → List PcbPtr
  | .cvarBlocked j p => if j=i then [p] else []
  | _ => []

/-- Who leaves the waiters of a condition variable. -/
def left (i : ℕ) : Event → List PcbPtr
  | .woken p (.pop (.cvarWaiters j)) => if j=i then [p] else []
  | _ => []

/-- What an operation does to the waiters of a condition variable. -/
inductive CvarStep (allow : Label → Prop) (i : ℕ) (s t : Kernel) : Prop
  /-- The events do not concern the condition variable at all. -/
  | aside (hj : t.log.flatMap (joined i)=s.log.flatMap (joined i))
      (hl : t.log.flatMap (left i)=s.log.flatMap (left i))
      (hq : t.queue (.cvarWaiters i)=s.queue (.cvarWaiters i))
  /-- The current process joins them. -/
  | join (hj : t.log.flatMap (joined i)=s.log.flatMap (joined i)++[s.currentProcess])
      (hl : t.log.flatMap (left i)=s.log.flatMap (left i))
      (hq : t.queue (.cvarWaiters i)=s.queue (.cvarWaiters i)++[s.currentProcess])
  /-- A call wakes the first of them. -/
  | leave (w : PcbPtr) (ho : allow (.wakes (.cvarWaiters i)))
      (hj : t.log.flatMap (joined i)=s.log.flatMap (joined i))
      (hl : t.log.flatMap (left i)=s.log.flatMap (left i)++[w])
      (hq : s.queue (.cvarWaiters i)=w::t.queue (.cvarWaiters i))

/-- An operation without events on other queues. -/
theorem cvarStep_same (hl : t.log=s.log)
    (hq : t.queue (.cvarWaiters i)=s.queue (.cvarWaiters i)) : CvarStep allow i s t :=
  .aside (by rw [hl]) (by rw [hl]) hq

/-- An operation with other events on other queues. -/
theorem cvarStep_other (hl : t.log=s.log++es) (hj : es.flatMap (joined i)=[])
    (he : es.flatMap (left i)=[]) (hq : t.queue (.cvarWaiters i)=s.queue (.cvarWaiters i)) :
    CvarStep allow i s t := by
  refine .aside ?_ ?_ hq
  · rw [hl,List.flatMap_append,hj,List.append_nil]
  · rw [hl,List.flatMap_append,he,List.append_nil]

/-- Another queue leaves the waiters of the condition variable as they are. -/
theorem other_queue {a : QueueAddr} (ht : t.queue=Function.update s.queue a rest)
    (h : a≠.cvarWaiters i) : t.queue (.cvarWaiters i)=s.queue (.cvarWaiters i) := by
  rw [ht]
  exact Function.update_of_ne h.symm ..

/-- Every operation does one of these. -/
theorem op_cvarStep {b : Bool} (hc : Coherent M s) (hop : Op M allow b s t) :
    CvarStep allow i s t := by
  cases hop with
  | note e hn =>
    cases e with
    | stored p a c => exact cvarStep_other rfl rfl rfl rfl
    | loaded p a c => exact cvarStep_other rfl rfl rfl rfl
    | execLedger a b c d => exact cvarStep_other rfl rfl rfl rfl
    | _ => exact hn.elim
  | tick => exact cvarStep_other rfl rfl rfl rfl
  | writeDone j len => exact cvarStep_other rfl rfl rfl rfl
  | sleepOver p hl ho => exact cvarStep_other (List.append_assoc ..) rfl rfl rfl
  | requeue hi hs => exact cvarStep_other rfl rfl rfl rfl
  | dispatch env hs =>
    have he := dispatchNext_eq hc hs
    rw [he]
    exact cvarStep_other rfl rfl rfl rfl
  | forkUndone env c pfns pt m₁ m u ha hcp =>
    obtain ⟨h0,hl⟩ := callocPcb_fresh hcp
    rw [destroyed_child hc h0 hl]
    exact cvarStep_same rfl rfl
  | spawn env caller c =>
    rw [spawn_eq]
    exact cvarStep_other (List.append_assoc ..) rfl rfl rfl
  | unlock j l => exact cvarStep_other rfl rfl rfl rfl
  | handOff j l w rest u =>
    exact cvarStep_other ((List.append_assoc ..).trans (List.append_assoc ..)) rfl rfl
      (other_queue rfl (by simp))
  | zombie status k => exact cvarStep_other rfl rfl rfl rfl
  | zombieWake status k => exact cvarStep_other (List.append_assoc ..) rfl rfl rfl
  | collect statusPtr c ha hch hz =>
    rw [collectChild_eq hc ha statusPtr hch hz]
    refine cvarStep_other (List.append_assoc ..) ?_ ?_ rfl
    · split
      · rfl
      · rfl
    · split
      · rfl
      · rfl
  | blockPipe id buf len pipe k u => exact cvarStep_same rfl (other_queue rfl (by simp))
  | blockLock id l k u => exact cvarStep_other rfl rfl rfl (other_queue rfl (by simp))
  | blockCvar id lockId cvar lockOpened k u =>
    by_cases hi : id.toNat=i
    · subst hi
      refine .join ?_ ?_ ?_
      · simp [blockOnCvar,Kernel.emit,blockCurrent,joined]
      · simp [blockOnCvar,Kernel.emit,blockCurrent,left]
      · simp [blockOnCvar,Kernel.emit,blockCurrent]
    · refine cvarStep_other rfl ?_ rfl (other_queue rfl (by simpa using hi))
      simp [joined,hi]
  | blockRead j k u => exact cvarStep_same rfl (other_queue rfl (by simp))
  | startWrite env j buf len k u => exact cvarStep_other (List.append_assoc ..) rfl rfl rfl
  | queueWrite env j buf len k u => exact cvarStep_other rfl rfl rfl (other_queue rfl (by simp))
  | wake a w rest u hn hq ho =>
    by_cases ha : a=.cvarWaiters i
    · subst ha
      refine .leave w ho ?_ ?_ ?_
      · simp [markReady,joined]
      · simp [markReady,left]
      · rw [hq]
        simp [markReady]
    · refine cvarStep_other (List.append_assoc ..) rfl ?_ (other_queue rfl ha)
      rcases hn with ⟨j,rfl⟩|⟨j,rfl⟩
      · rfl
      · have hj : j≠i := fun he => ha (by rw [he])
        simp [left,hj]
  | openPipe env j hi hf => exact cvarStep_same rfl (other_queue rfl (by simp))
  | openLock j hi hf => exact cvarStep_same rfl (other_queue rfl (by simp))
  | openCvar j hi hf =>
    refine cvarStep_same rfl ?_
    by_cases hj : j=i
    · subst hj
      exact (Function.update_self ..).trans (free_queue hc hf).2.2.symm
    · exact other_queue rfl (by simpa using hj)
  | takeBytes j pipe len => exact cvarStep_other rfl rfl rfl rfl
  | putBytes env j pipe grown buf len => exact cvarStep_other rfl rfl rfl rfl
  | lockTake j l => exact cvarStep_other rfl rfl rfl rfl
  | lockResume id l => exact cvarStep_other rfl rfl rfl rfl
  | takeHanded j line => exact cvarStep_other rfl rfl rfl rfl
  | takeLine j line v => exact cvarStep_other rfl rfl rfl rfl
  | deliver j line r rest =>
    exact cvarStep_other (List.append_assoc ..) rfl rfl (other_queue rfl (by simp))
  | enqueue j line => exact cvarStep_other rfl rfl rfl rfl
  | transmitSpurious j => exact cvarStep_other rfl rfl rfl rfl
  | transmitMore j => exact cvarStep_other (List.append_assoc ..) rfl rfl rfl
  | transmitLast j u => exact cvarStep_other (List.append_assoc ..) rfl rfl rfl
  | transmitNext j u w rest =>
    exact cvarStep_other ((List.append_assoc ..).trans ((List.append_assoc ..).trans
      (List.append_assoc ..))) rfl rfl (other_queue rfl (by simp))
  | _ => exact cvarStep_same rfl rfl

/-- The waiters are those that joined and did not leave, in their order. -/
theorem CvarStep.inOrder (h : CvarStep allow i s t)
    (ho : InOrder (joined i) (left i) s.log (s.queue (.cvarWaiters i))) :
    InOrder (joined i) (left i) t.log (t.queue (.cvarWaiters i)) := by
  unfold InOrder at ho ⊢
  cases h with
  | aside hj hl hq => rw [hj,hl,hq,ho]
  | join hj hl hq => rw [hj,hl,hq,ho,List.append_assoc]
  | leave w _ hj hl hq =>
    rw [hq] at ho
    calc t.log.flatMap (joined i)
      _=s.log.flatMap (left i)++w::t.queue (.cvarWaiters i) := hj.trans ho
      _=s.log.flatMap (left i)++[w]++t.queue (.cvarWaiters i) := (List.append_assoc _ [w] _).symm
      _=t.log.flatMap (left i)++t.queue (.cvarWaiters i) := by rw [hl]

/-- Waiters stay in front when no call wakes them. -/
theorem CvarStep.kept (h : CvarStep allow i s t) (ha : ¬allow (.wakes (.cvarWaiters i))) :
    s.queue (.cvarWaiters i)<+:t.queue (.cvarWaiters i) := by
  cases h with
  | aside _ _ hq => exact ⟨[],by rw [hq,List.append_nil]⟩
  | join _ _ hq => exact ⟨[s.currentProcess],hq.symm⟩
  | leave w ho => exact absurd ho ha

/-- Waiters stay in front in a step that does not wake them. -/
theorem ops_kept (hc : Coherent M s) (hops : Ops M allow s t)
    (ha : ¬allow (.wakes (.cvarWaiters i))) :
    s.queue (.cvarWaiters i)<+:t.queue (.cvarWaiters i) := by
  induction hops with
  | refl => exact List.prefix_refl _
  | tail hops hone ih =>
    obtain ⟨c,hone⟩ := hone
    exact ih.trans ((op_cvarStep (ops_coherent hc hops) hone).kept ha)

section Waiters

variable {live live' : PcbPtr → Bool} {state state' : PcbPtr → ProcState}
  {saved saved' : PcbPtr → KernelContext} {queue queue' : QueueAddr → List PcbPtr}
  {a : ProcState} {n : KernelPoint} {l : List PcbPtr}

/-- A stack stopped in CvarWait on this number. -/
def OnCvar (n : KernelPoint) (i : ℕ) : Prop := ∃ lockId g g',n=.cvarWait i lockId g g'

/-- The queue of a condition variable holds the processes blocked in CvarWait
on it and no others. -/
def WaiterOk (live : PcbPtr → Bool) (state : PcbPtr → ProcState) (saved : PcbPtr → KernelContext)
    (queue : QueueAddr → List PcbPtr) : Prop :=
  ∀ p i,live p=true →
    (p∈queue (.cvarWaiters i) ↔ state p=.blocked ∧ OnCvar (saved p).point i)

/-- A change that is about one process. -/
theorem WaiterOk.one (h : WaiterOk live state saved queue) (p : PcbPtr)
    (hl : ∀ q≠p,live' q=true → live q=true) (hs : ∀ q≠p,state' q=state q)
    (hk : ∀ q≠p,saved' q=saved q)
    (hq : ∀ q≠p,∀ i,q∈queue' (.cvarWaiters i) ↔ q∈queue (.cvarWaiters i))
    (hp : live' p=true → ∀ i,p∈queue' (.cvarWaiters i) ↔
      state' p=.blocked ∧ OnCvar (saved' p).point i) : WaiterOk live' state' saved' queue' := by
  intro q i hlive
  by_cases he : q=p
  · subst he
    exact hp hlive i
  · rw [hq q he i,hs q he,hk q he]
    exact h q i (hl q he hlive)

/-- A process that is not a waiter gets a state other than blocked. -/
theorem WaiterOk.setState (h : WaiterOk live state saved queue) (ha : a≠.blocked)
    (hp : ∀ i,p∉queue (.cvarWaiters i)) :
    WaiterOk live (Function.update state p a) saved queue := by
  refine h.one p (fun _ _ hl => hl) (fun q hq => Function.update_of_ne hq ..) (fun _ _ => rfl)
    (fun _ _ _ => Iff.rfl) (fun _ i => iff_of_false (hp i) ?_)
  rw [Function.update_self]
  exact fun hb => ha hb.1

/-- A process that is not blocked gets another stack. -/
theorem WaiterOk.setSaved (h : WaiterOk live state saved queue) (hs : state p≠.blocked)
    (hp : ∀ i,p∉queue (.cvarWaiters i)) :
    WaiterOk live state (Function.update saved p k) queue :=
  h.one p (fun _ _ hl => hl) (fun _ _ => rfl) (fun _ hq => Function.update_of_ne hq ..)
    (fun _ _ _ => Iff.rfl) (fun _ i => iff_of_false (hp i) (fun hb => hs hb.1))

/-- A process stops outside CvarWait. -/
theorem WaiterOk.park (h : WaiterOk live state saved queue)
    (hk : ∀ i,¬OnCvar k.point i) (hp : ∀ i,p∉queue (.cvarWaiters i)) :
    WaiterOk live (Function.update state p a) (Function.update saved p k) queue := by
  refine h.one p (fun _ _ hl => hl) (fun q hq => Function.update_of_ne hq ..)
    (fun q hq => Function.update_of_ne hq ..) (fun _ _ _ => Iff.rfl)
    (fun _ i => iff_of_false (hp i) ?_)
  rw [Function.update_self,Function.update_self]
  exact fun hb => hk i hb.2

/-- A queue other than the waiters of the condition variable changes. -/
theorem WaiterOk.setQueue {q : QueueAddr} (h : WaiterOk live state saved queue)
    (hq : ∀ i,q≠.cvarWaiters i) : WaiterOk live state saved (Function.update queue q l) := by
  intro p i hl
  rw [Function.update_of_ne (hq i).symm]
  exact h p i hl

/-- A process that is destroyed waits on no condition variable. -/
theorem WaiterOk.death (h : WaiterOk live state saved queue) :
    WaiterOk (Function.update live p false) state saved queue := by
  refine h.one p (fun q hq hl => ?_) (fun _ _ => rfl) (fun _ _ => rfl) (fun _ _ _ => Iff.rfl)
    (fun hl => ?_)
  · rwa [Function.update_of_ne hq] at hl
  · rw [Function.update_self] at hl
    cases hl

/-- A new process waits on no condition variable. -/
theorem WaiterOk.birth (h : WaiterOk live state saved queue)
    (hp : ∀ i,p∉queue (.cvarWaiters i)) :
    WaiterOk (Function.update live p true) (Function.update state p .ready)
      (Function.update saved p k) queue := by
  refine h.one p (fun q hq hl => ?_) (fun q hq => Function.update_of_ne hq ..)
    (fun q hq => Function.update_of_ne hq ..) (fun _ _ _ => Iff.rfl)
    (fun _ i => iff_of_false (hp i) ?_)
  · rwa [Function.update_of_ne hq] at hl
  · rw [Function.update_self]
    rintro ⟨hb,_⟩
    cases hb

/-- A process joins the waiters. -/
theorem WaiterOk.join (h : WaiterOk live state saved queue) (hk : OnCvar k.point i)
    (hp : ∀ i,p∉queue (.cvarWaiters i)) :
    WaiterOk live (Function.update state p .blocked) (Function.update saved p k)
      (Function.update queue (.cvarWaiters i) (queue (.cvarWaiters i)++[p])) := by
  refine h.one p (fun _ _ hl => hl) (fun q hq => Function.update_of_ne hq ..)
    (fun q hq => Function.update_of_ne hq ..) (fun q hq j => ?_) (fun _ j => ?_)
  · by_cases hj : j=i
    · subst hj
      rw [Function.update_self,List.mem_append,List.mem_singleton]
      exact or_iff_left hq
    · rw [Function.update_of_ne (by simpa using hj)]
  · rw [Function.update_self,Function.update_self]
    by_cases hj : j=i
    · subst hj
      rw [Function.update_self]
      exact iff_of_true (List.mem_append_right _ (List.mem_singleton_self p)) ⟨rfl,hk⟩
    · rw [Function.update_of_ne (by simpa using hj)]
      refine iff_of_false (hp j) ?_
      rintro ⟨_,l,g,g',hn⟩
      obtain ⟨l₁,g₁,g₁',hn₁⟩ := hk
      rw [hn] at hn₁
      injection hn₁ with hn₁
      exact hj (Int.ofNat.inj hn₁)

/-- The first process of a queue is woken. -/
theorem WaiterOk.wake {q : QueueAddr} (h : WaiterOk live state saved queue)
    (hq : queue q=w::rest) (hn : w∉rest) (hu : ∀ q',w∈queue q' → q'=q) :
    WaiterOk live (Function.update state w .ready) saved (Function.update queue q rest) := by
  refine h.one w (fun _ _ hl => hl) (fun x hx => Function.update_of_ne hx ..) (fun _ _ => rfl)
    (fun x hx i => ?_) (fun _ i => iff_of_false ?_ ?_)
  · by_cases he : QueueAddr.cvarWaiters i=q
    · rw [he,Function.update_self,hq,List.mem_cons]
      exact (or_iff_right hx).symm
    · rw [Function.update_of_ne he]
  · by_cases he : QueueAddr.cvarWaiters i=q
    · rw [he,Function.update_self]
      exact hn
    · rw [Function.update_of_ne he]
      exact fun hm => he (hu _ hm)
  · rw [Function.update_self]
    rintro ⟨hb,_⟩
    cases hb

/-- A process with another reason is no waiter. -/
theorem not_waiter {r : Reason} (hc : Coherent M s) (hl : s.live p=true) (hr : BlockedBy s p r)
    (hn : ∀ i,r≠.queue (.cvarWaiters i)) (i : ℕ) : p∉s.queue (.cvarWaiters i) :=
  fun hm => hn i (hc.block.reasons.unique p r (.queue (.cvarWaiters i)) hl hr hm)

/-- Every operation keeps the queues of condition variables true. -/
theorem op_waiterOk {b : Bool} (hc : Coherent M s)
    (h : WaiterOk s.live s.state s.kernelContext s.queue) (hop : Op M allow b s t) :
    WaiterOk t.live t.state t.kernelContext t.queue := by
  have hout : ∀ {p},s.state p≠.blocked → ∀ i,p∉s.queue (.cvarWaiters i) :=
    fun hs i => hc.block.unqueued hs _
  have hsave : ∀ {p k},s.state p≠.blocked →
      WaiterOk s.live s.state (Function.update s.kernelContext p k) s.queue :=
    fun hs => h.setSaved hs (hout hs)
  have hstop : ∀ {k : KernelContext},Active s → (∀ i,¬OnCvar k.point i) →
      WaiterOk s.live (Function.update s.state s.currentProcess .blocked)
        (Function.update s.kernelContext s.currentProcess k) s.queue :=
    fun ha hk => h.park hk (hout ha.toRunnable.not_blocked)
  have hwake : ∀ {a w rest},s.queue a=w::rest →
      WaiterOk s.live (Function.update s.state w .ready) s.kernelContext
        (Function.update s.queue a rest) := by
    intro a w rest hq
    have hm : w∈s.queue a := by rw [hq]; exact List.mem_cons_self
    have hn := hc.block.queue_nodup a
    rw [hq] at hn
    refine h.wake hq (List.nodup_cons.1 hn).1 (fun a' hm' => ?_)
    injection hc.block.only_queue hm (show BlockedBy s w (.queue a') from hm')
  have hwriter : ∀ {j},(s.terminals j).writer≠0 → ∀ i,
      (s.terminals j).writer∉s.queue (.cvarWaiters i) :=
    fun hw => not_waiter hc (hc.block.writer_live _ hw) (show BlockedBy s _ (.writer _) from rfl)
      (by simp)
  cases hop with
  | begin hr hl hn => exact hsave hr.not_blocked
  | preempt ha => exact hsave ha.toRunnable.not_blocked
  | sleepOver p hl ho =>
    exact h.setState (by decide) (not_waiter hc hl (show BlockedBy s p .delay from ho.2.2.1)
      (by simp))
  | requeue hi hs => exact h.setState (by decide) (hout (by rw [hs]; decide))
  | dispatch env hs =>
    have he := dispatchNext_eq hc hs
    rw [he]
    dsimp only
    split
    · exact h
    · refine h.setState (by decide) (hout ?_)
      rcases nextProcess_cases hc with ⟨_,hn⟩|⟨rest,hr⟩
      · rw [hn,hc.ready.idle_running]
        decide
      · rw [(hc.ready.mem _ (by rw [hr]; exact List.mem_cons_self)).2.2]
        decide
  | forkUndone env c pfns pt m₁ m u ha hcp =>
    obtain ⟨h0,hl⟩ := callocPcb_fresh hcp
    rw [destroyed_child hc h0 hl]
    exact (h.birth (fun i => dead_unqueued hc hl _)).death
  | spawn env caller c pfns pt m₁ m u hb hcp =>
    rw [spawn_eq]
    exact h.birth (fun i => dead_unqueued hc (callocPcb_fresh hcp).2 _)
  | handOff i l w rest u ha ho how hq => exact hwake hq
  | zombie status k env m v hk hb =>
    exact h.park (by simp [OnCvar,hk]) (hout hb.toActive.toRunnable.not_blocked)
  | zombieWake status k env m v hk hb hch hl hp hw =>
    refine (h.park (by simp [OnCvar,hk]) (hout hb.toActive.toRunnable.not_blocked)).setState
      (by decide) (not_waiter hc ?_ (show BlockedBy s _ .child from hw) (by simp))
    exact (hc.family.parent_child _ hc.ready.current_live hp).1
  | collect statusPtr c ha hch hz =>
    rw [collectChild_eq hc ha statusPtr hch hz]
    exact h.death
  | blockDelay ticks k u hk hb => exact hstop hb.toActive (by simp [OnCvar,hk])
  | blockChild statusPtr k u hk hb => exact hstop hb.toActive (by simp [OnCvar,hk])
  | blockPipe id buf len pipe k u hk hb =>
    exact (hstop hb.toActive (by simp [OnCvar,hk])).setQueue (by simp)
  | blockLock id l k u hk hb =>
    exact (hstop hb.toActive (by simp [OnCvar,hk])).setQueue (by simp)
  | blockCvar id lockId cvar lockOpened k u hk hb ho =>
    refine h.join ⟨lockId,cvar.opened,lockOpened,?_⟩ (hout hb.toActive.toRunnable.not_blocked)
    obtain ⟨h0,_,_⟩ := getObject_bounds (show getObject s id≠.free by rw [ho]; simp)
    rw [hk,Int.toNat_of_nonneg h0]
  | blockRead i k u hk hb =>
    exact (hstop hb.toActive (by simp [OnCvar,hk])).setQueue (by simp)
  | startWrite env i buf len k u hk hb => exact hstop hb.toActive (by simp [OnCvar,hk])
  | queueWrite env i buf len k u hk hb =>
    exact (hstop hb.toActive (by simp [OnCvar,hk])).setQueue (by simp)
  | wake q w rest u hn hq => exact hwake hq
  | writeDone i len hr => exact hsave hr.not_blocked
  | lockResume id l hr => exact hsave hr.not_blocked
  | takeHanded i line hk hl =>
    exact hsave (hc.reader.handed _ line hc.ready.current_live hl).2.1
  | deliver i line r rest hl hq => exact hwake hq
  | openPipe env i hi hf => exact h.setQueue (by simp)
  | openLock i hi hf => exact h.setQueue (by simp)
  | openCvar i hi hf =>
    have he : Function.update s.queue (.cvarWaiters i) []=s.queue := by
      rw [←(free_queue hc hf).2.2,Function.update_eq_self]
    dsimp only
    rw [he]
    exact h
  | transmitLast i u hw => exact h.setState (by decide) (hwriter hw)
  | transmitNext i u w rest hw => exact (h.setState (by decide) (hwriter hw)).setQueue (by simp)
  | _ => exact h

end Waiters

section Waking

/-- These processes are made ready, in this order, and nothing else happens to
the states of processes. -/
structure MadeReady (l : List PcbPtr) (s t : Kernel) : Prop where
  /-- They are linked behind the others. -/
  ready : t.readyQueue=s.readyQueue++l
  /-- They get the state ready. -/
  made : ∀ p∈l,t.state p=.ready
  /-- The others keep theirs. -/
  others : ∀ p,p∉l → t.state p=s.state p

/-- Processes made ready one list behind the other are made ready. -/
theorem MadeReady.trans {l l' : List PcbPtr} {v : Kernel} (h : MadeReady l s t)
    (h' : MadeReady l' t v) : MadeReady (l++l') s v := by
  refine ⟨?_,fun p hp => ?_,fun p hp => ?_⟩
  · rw [h'.ready,h.ready,List.append_assoc]
  · by_cases hm : p∈l'
    · exact h'.made p hm
    · rw [h'.others p hm]
      rcases List.mem_append.1 hp with hl|hl
      · exact h.made p hl
      · exact absurd hl hm
  · rw [List.mem_append,not_or] at hp
    rw [h'.others p hp.2,h.others p hp.1]

/-- Waking one process makes the first of the queue ready. -/
theorem wakeOne_ready (hc : Coherent M s) {a : QueueAddr} :
    MadeReady ((s.queue a).take 1) s (wakeOne a s).2 := by
  cases hq : s.queue a with
  | nil =>
    unfold wakeOne
    rw [hq]
    exact ⟨(List.append_nil _).symm,fun p hp => (by cases hp),fun _ _ => rfl⟩
  | cons w rest =>
    rw [wakeOne_eq hc hq]
    refine ⟨rfl,fun p hp => ?_,fun p hp => ?_⟩
    · rw [List.take_succ_cons,List.take_zero,List.mem_singleton] at hp
      subst hp
      exact Function.update_self ..
    · rw [List.take_succ_cons,List.take_zero,List.mem_singleton] at hp
      exact Function.update_of_ne hp ..

/-- Waking several processes makes the first ones of the queue ready. -/
theorem wakeIter_ready (hc : Coherent M s) (ha : Active s) (n : ℕ) :
    MadeReady ((s.queue (.cvarWaiters i)).take n) s
      ((fun s => (wakeOne (.cvarWaiters i) s).2)^[n] s) := by
  induction n generalizing s with
  | zero => exact ⟨(List.append_nil _).symm,fun p hp => (by cases hp),fun _ _ => rfl⟩
  | succ n ih =>
    have hw : Calm M (fun _ => True) s (wakeOne (.cvarWaiters i) s).2 :=
      wakeOne_calm hc (.inr ⟨i,rfl⟩) trivial
    obtain ⟨hc',ha'⟩ := calm_keeps hc ha hw
    have hone := (wakeOne_ready hc).trans (ih hc' ha')
    rw [wakeOne_queue] at hone
    rw [Function.iterate_succ_apply]
    cases hq : s.queue (.cvarWaiters i) with
    | nil =>
      rw [hq] at hone
      simpa using hone
    | cons w rest =>
      rw [hq] at hone
      simpa using hone

/-- Waking all processes makes the whole queue ready and empties it. -/
theorem wakeAll_ready (hc : Coherent M s) (ha : Active s) :
    MadeReady (s.queue (.cvarWaiters i)) s (wakeAll (.cvarWaiters i) s) ∧
      (wakeAll (.cvarWaiters i) s).queue (.cvarWaiters i)=[] := by
  have hw : Calm M (fun _ => True) s (wakeAll (.cvarWaiters i) s) ∧ _ :=
    wakeAll_calm hc ha (.inr ⟨i,rfl⟩) trivial
  refine ⟨?_,hw.2⟩
  have hn := wakeIter_ready (i := i) hc ha (s.queue (.cvarWaiters i)).length
  rw [List.take_length] at hn
  exact hn

/-- The registers saved at a trap are not about the states. -/
theorem MadeReady.step {u : UserContext} {l : List PcbPtr} (h : MadeReady l (saveContext u s) t)
    (hf : stepFlow M env s (.trap u)=.returns t u SUCCESS) (hv : u.vector=.kernel)
    (hx : M.syscallOf u.code≠.exec) :
    MadeReady l s (kernelStep M env s (.trap u)) ∧
      (kernelStep M env s (.trap u)).queue=t.queue ∧
      returnValue M env s (.trap u)=some SUCCESS := by
  obtain ⟨c,hc⟩ := saveContext_eq (s := s) u
  obtain ⟨c',v,he⟩ := finish_returns (s := t) s.currentProcess u SUCCESS
  rw [trap_step env hv hx,hf,he]
  rw [hc] at h
  refine ⟨⟨h.ready,h.made,h.others⟩,rfl,?_⟩
  unfold returnValue
  rw [hf]
  rfl

variable {u : UserContext} {c : CvarState}

/-- Signal makes the first waiter ready. -/
theorem signal_step (hs : Settled M s) (hcpu : s.cpu=.user) (hv : u.vector=.kernel)
    (hcall : M.syscallOf u.code=.cvarSignal) (ho : getObject s (u.int 0)=.cvar c)
    (hi : u.int 0=i) :
    MadeReady ((s.queue (.cvarWaiters i)).take 1) s (kernelStep M env s (.trap u)) ∧
      (kernelStep M env s (.trap u)).queue (.cvarWaiters i)=(s.queue (.cvarWaiters i)).tail ∧
      returnValue M env s (.trap u)=some SUCCESS := by
  have hact := hs.user hcpu
  have hcalm : Calm M (fun _ => True) s (saveContext u s) := saveContext_calm u
  obtain ⟨hcs,_⟩ := calm_keeps hs.toCoherent hact hcalm
  obtain ⟨x,hx⟩ := saveContext_eq (s := s) u
  have hflow : stepFlow M env s (.trap u)=
      .returns (wakeOne (.cvarWaiters i) (saveContext u s)).2 u SUCCESS := by
    have ho' : getObject (saveContext u s) (u.int 0)=.cvar c := by rw [hx]; exact ho
    dsimp only [stepFlow,callFlow]
    rw [hcall]
    dsimp only [sysCvarSignal]
    rw [ho',hi]
    rfl
  have hq : (saveContext u s).queue=s.queue := by rw [hx]
  have hmade := wakeOne_ready (a := .cvarWaiters i) hcs
  rw [hq] at hmade
  obtain ⟨hm,hqueue,hret⟩ := hmade.step hflow hv (by rw [hcall]; simp)
  refine ⟨hm,?_,hret⟩
  rw [hqueue,wakeOne_queue,hq]

/-- Broadcast makes all waiters ready. -/
theorem broadcast_step (hs : Settled M s) (hcpu : s.cpu=.user) (hv : u.vector=.kernel)
    (hcall : M.syscallOf u.code=.cvarBroadcast) (ho : getObject s (u.int 0)=.cvar c)
    (hi : u.int 0=i) :
    MadeReady (s.queue (.cvarWaiters i)) s (kernelStep M env s (.trap u)) ∧
      (kernelStep M env s (.trap u)).queue (.cvarWaiters i)=[] ∧
      returnValue M env s (.trap u)=some SUCCESS := by
  have hact := hs.user hcpu
  have hcalm : Calm M (fun _ => True) s (saveContext u s) := saveContext_calm u
  obtain ⟨hcs,has⟩ := calm_keeps hs.toCoherent hact hcalm
  obtain ⟨x,hx⟩ := saveContext_eq (s := s) u
  have hflow : stepFlow M env s (.trap u)=
      .returns (wakeAll (.cvarWaiters i) (saveContext u s)) u SUCCESS := by
    have ho' : getObject (saveContext u s) (u.int 0)=.cvar c := by rw [hx]; exact ho
    dsimp only [stepFlow,callFlow]
    rw [hcall]
    dsimp only [sysCvarBroadcast]
    rw [ho',hi]
    rfl
  have hq : (saveContext u s).queue=s.queue := by rw [hx]
  obtain ⟨hmade,hempty⟩ := wakeAll_ready (i := i) hcs has
  rw [hq] at hmade
  obtain ⟨hm,hqueue,hret⟩ := hmade.step hflow hv (by rw [hcall]; simp)
  refine ⟨hm,?_,hret⟩
  rw [hqueue]
  exact hempty

end Waking

section Returning

variable {g : PcbPtr → Option Entry} {input : Input} {id lockId : ℤ} {l : LockState}
  {g₁ g₂ : ℕ} {u : UserContext} {e : Entry} {pipes gone : Prop}

/-- The arguments of a CvarWait: a condition variable and a lock of the caller. -/
def Passed (e : Entry) (p : PcbPtr) : Prop :=
  (∃ c,lookup e.objects (e.context.int 0)=.cvar c) ∧
    ∃ l,lookup e.objects (e.context.int 1)=.lock l ∧ l.owner=p

/-- Process p is back from CvarWait with SUCCESS, owning the lock that it was
called with, or still inside the call. -/
def Regains (M : Machine) (e : Entry) (p : PcbPtr) (result : Option ℤ) (t : Kernel) : Prop :=
  match result with
  | some rc => rc=SUCCESS ∧ t.cpu=.user ∧ t.currentProcess=p ∧
    ∃ l l₀,lookup t.objects (e.context.int 1)=.lock l ∧ l.owner=p ∧
      lookup e.objects (e.context.int 1)=.lock l₀ ∧ l.opened=l₀.opened
  | none => t.cpu≠.user ∧ Stopped M e.context (t.kernelContext p).point

/-- Acquiring a lock of somebody else or nobody. -/
theorem lockAcquire_other (M : Machine) (env : Env)
    (hi : ¬(s.currentProcess=0 ∨ s.currentProcess=s.idleProcess))
    (ho : getObject s lockId=.lock l) (hn : l.owner≠s.currentProcess) (caller : PcbPtr)
    (u : UserContext) :
    (∃ k x,k.point=.acquire lockId l.opened ∧ lockAcquire M env caller lockId u s=
      .leaves (processSchedule M env (blockOnLock lockId.toNat l k x s))) ∨
    lockAcquire M env caller lockId u s=.returns (takeLock lockId.toNat l s) u SUCCESS := by
  unfold lockAcquire lockAcquireLoop
  rw [ho]
  dsimp only
  rw [if_neg hi,if_neg hn]
  split
  · exact .inl ⟨_,_,rfl,rfl⟩
  · exact .inr rfl

/-- A waiter whose objects are there takes its lock or queues for it. -/
theorem wait_goes {c : CvarState} (hw : Watched M s g)
    (hr : RefOk (Watching pipes) gone s.currentProcess s.live s.kernelContext s.objects)
    (hn : Named pipes s.currentProcess s g) (hg : g s.currentProcess=some e)
    (hk : (s.kernelContext s.currentProcess).point=.cvarWait id lockId g₁ g₂)
    (hc : s.objects id.toNat=.cvar c) (hl : s.objects lockId.toNat=.lock l) :
    Regains M e s.currentProcess (returnValue M env s .resume) (kernelStep M env s .resume) := by
  have hlive := hw.ready.current_live
  have hwatch : Watching pipes (s.kernelContext s.currentProcess).point := by rw [hk]; trivial
  obtain ⟨hstop,hden⟩ := hn.inside hw hlive hg (by rw [hk]; trivial) hwatch
  have href := hr hlive hwatch
  rw [hk] at hstop href hden
  obtain ⟨hcall,hid,hlk⟩ := hstop
  obtain ⟨hop,how⟩ := Still.lock href.2 hl
  obtain ⟨⟨h0,hm,_⟩,hl0,hlm,_⟩ := href
  obtain ⟨_,l₀,hl₀,hstamp⟩ := hden
  have hidle : ¬(s.currentProcess=0 ∨ s.currentProcess=s.idleProcess) := by
    rintro (h|h)
    · exact hw.ready.ne_null hlive h
    · have hi := hw.saved.idle
      rw [←h,hk] at hi
      rcases hi with hi|hi|hi <;> cases hi
  have hgc : getObject (s.setKernelContext s.currentProcess ⟨s.currentProcess,.executing⟩) id=
      .cvar c := (lookup_eq h0 hm).trans hc
  have hgl : getObject (s.setKernelContext s.currentProcess ⟨s.currentProcess,.executing⟩) lockId=
      .lock l := (lookup_eq hl0 hlm).trans hl
  have hflow : stepFlow M env s .resume=lockAcquire M env
      (s.kernelContext s.currentProcess).caller lockId (savedContext s)
      (s.setKernelContext s.currentProcess ⟨s.currentProcess,.executing⟩) := by
    dsimp only [stepFlow,resumeFlow]
    rw [hk]
    dsimp only [cvarWaitResume]
    rw [hgc]
    rfl
  unfold returnValue
  rw [resume_step,hflow]
  rcases lockAcquire_other M env (s := s.setKernelContext s.currentProcess
    ⟨s.currentProcess,.executing⟩) hidle hgl how (s.kernelContext s.currentProcess).caller
    (savedContext s) with ⟨k,x,hkp,he⟩|he
  · rw [he]
    refine ⟨schedule_cpu _,?_⟩
    dsimp only [finish]
    rw [(schedule_untouched _).saved]
    dsimp only [blockOnLock,Kernel.emit,blockCurrent,Kernel.setKernelContext]
    rw [Function.update_self,hkp]
    exact .inr ⟨hcall,hlk⟩
  · rw [he]
    obtain ⟨c,v,hfin⟩ := finish_returns (s := takeLock lockId.toNat l (s.setKernelContext
      s.currentProcess ⟨s.currentProcess,.executing⟩))
      (s.kernelContext s.currentProcess).caller (savedContext s) SUCCESS
    rw [hfin]
    refine ⟨rfl,rfl,rfl,{l with owner := s.currentProcess},l₀,?_,rfl,?_,hop.trans hstamp.symm⟩
    · rw [←hlk,lookup_eq hl0 hlm]
      exact Function.update_self ..
    · rw [←hlk,lookup_eq hl0 hlm]
      exact hl₀

/-- A waiter whose objects have been kept goes on with them. -/
theorem wait_resumed (hw : Watched M s g)
    (hr : RefOk (Watching False) False s.currentProcess s.live s.kernelContext s.objects)
    (hn : Named False s.currentProcess s g) (hg : g s.currentProcess=some e)
    (hk : (s.kernelContext s.currentProcess).point=.cvarWait id lockId g₁ g₂) :
    Regains M e s.currentProcess (returnValue M env s .resume) (kernelStep M env s .resume) := by
  have href := hr hw.ready.current_live (by rw [hk]; trivial)
  rw [hk] at href
  obtain ⟨⟨_,_,hc⟩,_,_,hl⟩ := href
  obtain ⟨c,hc,_⟩ := hc.resolve_left (fun h => h.1)
  obtain ⟨l,hl,_⟩ := hl.resolve_left (fun h => h.1)
  exact wait_goes hw hr hn hg hk hc hl

/-- An acquirer that goes on owns the lock. -/
theorem acquire_resumed (hw : Watched M s g) (hcpu : s.cpu=.kernel)
    (hn : Named pipes s.currentProcess s g) (hg : g s.currentProcess=some e)
    (hcall : M.syscallOf e.context.code=.cvarWait)
    (hk : (s.kernelContext s.currentProcess).point=.acquire id g₁) :
    Regains M e s.currentProcess (returnValue M env s .resume) (kernelStep M env s .resume) := by
  obtain ⟨hrun,_⟩ := hw.kernel hcpu
  obtain ⟨hstop,hden⟩ := hn.inside hw hw.ready.current_live hg (by rw [hk]; trivial)
    (by rw [hk]; trivial)
  rw [hk] at hstop hden
  obtain ⟨l₀,hl₀,hstamp⟩ := hden
  have hid : id=e.context.int 1 := by
    rcases hstop with ⟨ha,_⟩|⟨_,hid⟩
    · rw [hcall] at ha
      cases ha
    · exact hid
  obtain ⟨l,ho,hop,how⟩ := lockAcquireResume_eq hw.toCoherent hrun hk
  obtain ⟨h0,hm,_⟩ := getObject_bounds (show getObject s id≠.free by rw [ho]; simp)
  have hflow : stepFlow M env s .resume=.returns ((s.setKernelContext s.currentProcess
      ⟨s.currentProcess,.executing⟩).emit (.lockResumed l.opened s.currentProcess))
      (savedContext s) SUCCESS := by
    have ho' : getObject (s.setKernelContext s.currentProcess ⟨s.currentProcess,.executing⟩) id=
        .lock l := ho
    dsimp only [stepFlow,resumeFlow]
    rw [hk]
    dsimp only [lockAcquireResume]
    rw [ho']
    exact if_pos how
  obtain ⟨c,v,hfin⟩ := finish_returns (s := (s.setKernelContext s.currentProcess
    ⟨s.currentProcess,.executing⟩).emit (.lockResumed l.opened s.currentProcess))
    (s.kernelContext s.currentProcess).caller (savedContext s) SUCCESS
  unfold returnValue
  rw [resume_step,hflow,hfin]
  refine ⟨rfl,rfl,rfl,l,l₀,?_,how,?_,hop.trans hstamp.symm⟩
  · rw [←hid]
    exact ho
  · rw [←hid,lookup_eq h0 hm]
    exact hl₀

/-- A CvarWait that passes its checks waits. -/
theorem wait_called (hv : u.vector=.kernel)
    (hcall : M.syscallOf u.code=.cvarWait) (hp : Passed ⟨u,s.objects⟩ s.currentProcess) :
    Regains M ⟨u,s.objects⟩ s.currentProcess (returnValue M env s (.trap u))
      (kernelStep M env s (.trap u)) := by
  obtain ⟨⟨c,hc⟩,l,hl,how⟩ := hp
  obtain ⟨x,hx⟩ := saveContext_eq (s := s) u
  have hgc : getObject (saveContext u s) (u.int 0)=.cvar c := by
    rw [hx]
    exact hc
  have hgl : getObject (saveContext u s) (u.int 1)=.lock l := by
    rw [hx]
    exact hl
  have hflow : stepFlow M env s (.trap u)=.leaves (processSchedule M env
      (blockOnCvar (u.int 0).toNat ⟨s.currentProcess,.cvarWait (u.int 0) (u.int 1) c.opened
        l.opened⟩ u (lockRelease (u.int 1).toNat l (saveContext u s)))) := by
    dsimp only [stepFlow,callFlow]
    rw [hcall]
    dsimp only [sysCvarWait]
    rw [hgc,hgl]
    dsimp only
    rw [if_neg (by rw [hx]; simpa using how)]
  unfold returnValue
  rw [trap_step env hv (by rw [hcall]; simp),hflow]
  refine ⟨schedule_cpu _,?_⟩
  dsimp only [finish]
  rw [(schedule_untouched _).saved]
  have hcur : (lockRelease (u.int 1).toNat l (saveContext u s)).currentProcess=
      s.currentProcess := by
    rw [(lockRelease_frame _ _).2.1,hx]
  dsimp only [blockOnCvar,Kernel.emit,blockCurrent]
  rw [hcur,Function.update_self]
  exact ⟨hcall,rfl,rfl⟩

/-- Where a CvarWait can go on. -/
theorem wait_points (hw : Watched M s g) (hcpu : s.cpu=.kernel)
    (hg : g s.currentProcess=some e) (hv : e.context.vector=.kernel)
    (hcall : M.syscallOf e.context.code=.cvarWait) :
    (∃ id lockId g₁ g₂,(s.kernelContext s.currentProcess).point=.cvarWait id lockId g₁ g₂) ∨
      ∃ id g₁,(s.kernelContext s.currentProcess).point=.acquire id g₁ := by
  rcases stopped_call (resumed_inside hw hcpu hg hv (by rw [hcall]; simp)) with hpc|⟨id,g₁,hk,_⟩
  · rw [hcall] at hpc
    cases hk : (s.kernelContext s.currentProcess).point with
    | cvarWait id lockId g₁ g₂ => exact .inl ⟨id,lockId,g₁,g₂,rfl⟩
    | _ =>
      rw [hk] at hpc
      cases hpc
  · exact .inr ⟨id,g₁,hk⟩

/-- CvarWait with arguments that pass its checks, in the step of its trap or
in the step in which it goes on. -/
theorem wait_regains (hw : Watched M s g) (he : input.Enabled s)
    (hr : RefOk (Watching False) False s.currentProcess s.live s.kernelContext s.objects)
    (hn : Named False s.currentProcess s g) (hg : entered s g input s.currentProcess=some e)
    (hv : e.context.vector=.kernel) (hcall : M.syscallOf e.context.code=.cvarWait)
    (hp : Passed e s.currentProcess) :
    Regains M e s.currentProcess (returnValue M env s input) (kernelStep M env s input) := by
  cases input with
  | trap u =>
    rw [show entered s g (.trap u) s.currentProcess=some ⟨u,s.objects⟩ from if_pos (.inl rfl)] at hg
    injection hg with hg
    subst hg
    exact wait_called hv hcall hp
  | resume =>
    have hge : g s.currentProcess=some e := hg
    rcases wait_points hw he hge hv hcall with ⟨id,lockId,g₁,g₂,hk⟩|⟨id,g₁,hk⟩
    · exact wait_resumed hw hr hn hge hk
    · exact acquire_resumed hw he hn hge hcall hk

end Returning

section Runs

variable {g : PcbPtr → Option Entry} {input : Input} {ok : Kernel → Env → Input → Prop}

/-- Reclaim frees no object of a call that is stopped in CvarWait, and
KernelContextSwitch switches contexts. -/
def CvarsKept (M : Machine) (s : Kernel) (env : Env) (input : Input) : Prop :=
  env.switchOk=true ∧ ∀ u,input=.trap u → u.vector=.kernel → M.syscallOf u.code=.reclaim →
    inUse s (u.int 0).toNat (getObject s (u.int 0))=false → ∀ p id lockId g g',s.live p=true →
      (s.kernelContext p).point=.cvarWait id lockId g g' → u.int 0≠id ∧ u.int 0≠lockId

/-- No number of a call stopped in CvarWait is freed. -/
def KeepsWaiters : Label → Prop
  | .reclaims i live saved => ∀ p,live p=true → Watching False (saved p).point →
    ∀ c,¬Refers (saved p).point c i
  | _ => True

/-- An object that can be reclaimed has a number in the table. -/
theorem reclaimed_number {id : ℤ} (h : inUse s id.toNat (getObject s id)=false) :
    (id.toNat : ℤ)=id := by
  have hf : getObject s id≠.free := by
    intro hf
    rw [hf] at h
    cases h
  exact Int.toNat_of_nonneg (getObject_bounds hf).1

/-- The condition on a step restricts its labels. -/
theorem kept_allowed (h : CvarsKept M s env input) : StepAllowed M KeepsWaiters s env input := by
  intro x hx
  cases hx with
  | reclaims u hv hc hi =>
    intro p hl hw c hr
    have hkept := h.2 u rfl hv hc hi p
    cases hk : (s.kernelContext p).point with
    | pipeRead id buf len g =>
      rw [hk] at hw
      exact hw
    | cvarWait id lockId g g' =>
      rw [hk] at hr
      obtain ⟨h₁,h₂⟩ := hkept id lockId g g' hl hk
      rcases hr with ⟨_,hr⟩|⟨_,hr⟩
      · exact h₁ (hr.trans (reclaimed_number hi)).symm
      · exact h₂ (hr.trans (reclaimed_number hi)).symm
    | _ =>
      rw [hk] at hr
      exact hr
  | _ => trivial

/-- The waiters of every condition variable in every state of a run. -/
theorem run_waiters (hok : ∀ s env input,ok s env input → env.switchOk=true)
    (h : Run M (fun _ => True) ok s) :
    WaiterOk s.live s.state s.kernelContext s.queue ∧
      ∀ i,InOrder (joined i) (left i) s.log (s.queue (.cvarWaiters i)) := by
  refine (run_invariant (P := fun s => WaiterOk s.live s.state s.kernelContext s.queue ∧
    ∀ i,InOrder (joined i) (left i) s.log (s.queue (.cvarWaiters i)))
    (fun s env input hs => ⟨hok s env input hs,fun _ _ => trivial⟩)
    (fun b p q pfn pfns m₁ m₂ m v u _ hf => ?_)
    (fun c s t hc hp hop => ?_) h).2
  · refine ⟨fun x i hl => ?_,fun i => InOrder.empty _ _⟩
    rw [booted_running (booted_live.1 hl)]
    refine iff_of_false (fun hm => by cases hm) ?_
    rintro ⟨hb,_⟩
    cases hb
  · exact ⟨op_waiterOk hc hp.1 hop,fun i => (op_cvarStep hc hop).inOrder (hp.2 i)⟩

/-- A step that does not wake the waiters of a condition variable. -/
theorem step_kept (hs : Settled M s) (hsw : env.switchOk=true) (he : input.Enabled s)
    (hw : ∀ u,input=.trap u → u.vector=.kernel → M.syscallOf u.code=.cvarSignal ∨
      M.syscallOf u.code=.cvarBroadcast → u.int 0≠i) :
    s.queue (.cvarWaiters i)<+:(kernelStep M env s input).queue (.cvarWaiters i) ∧
      ∀ p∈s.queue (.cvarWaiters i),(kernelStep M env s input).state p=.blocked := by
  have hal : StepAllowed M (·≠.wakes (.cvarWaiters i)) s env input := by
    intro x hx hxi
    subst hxi
    cases hx with
    | wakes u _ hv hwk => exact hw u rfl hv hwk.1 hwk.2
  obtain ⟨hops,hset⟩ := kernelStep_done hs hsw he hal
  have hkept := ops_kept hs.toCoherent hops (i := i) (fun h => h rfl)
  exact ⟨hkept,fun p hp => hset.block.blocked (hkept.subset hp)⟩

/-- The condition variables of every run in which no object of a waiting call
is reclaimed. The queue of a variable holds exactly the processes blocked in
CvarWait on it, in the order in which they blocked. Signal makes exactly the
first of them ready and Broadcast exactly all of them; every other step leaves
them waiting. A CvarWait that passed its checks returns SUCCESS, with the caller
owning the lock it was called with, and stays inside the call until then. -/
theorem run_cvars (h : EntryRun M (CvarsKept M) s g) :
    (∀ i,InOrder (joined i) (left i) s.log (s.queue (.cvarWaiters i))) ∧
    (∀ p i,s.live p=true → (p∈s.queue (.cvarWaiters i) ↔
      s.state p=.blocked ∧ OnCvar (s.kernelContext p).point i)) ∧
    ∀ env input,input.Enabled s → CvarsKept M s env input →
      (∀ u c (i : ℕ),input=.trap u → u.vector=.kernel → M.syscallOf u.code=.cvarSignal →
        getObject s (u.int 0)=.cvar c → u.int 0=i →
        MadeReady ((s.queue (.cvarWaiters i)).take 1) s (kernelStep M env s input) ∧
        (kernelStep M env s input).queue (.cvarWaiters i)=(s.queue (.cvarWaiters i)).tail ∧
        returnValue M env s input=some SUCCESS) ∧
      (∀ u c (i : ℕ),input=.trap u → u.vector=.kernel → M.syscallOf u.code=.cvarBroadcast →
        getObject s (u.int 0)=.cvar c → u.int 0=i →
        MadeReady (s.queue (.cvarWaiters i)) s (kernelStep M env s input) ∧
        (kernelStep M env s input).queue (.cvarWaiters i)=[] ∧
        returnValue M env s input=some SUCCESS) ∧
      (∀ i : ℕ,(∀ u,input=.trap u → u.vector=.kernel → M.syscallOf u.code=.cvarSignal ∨
          M.syscallOf u.code=.cvarBroadcast → u.int 0≠i) →
        s.queue (.cvarWaiters i)<+:(kernelStep M env s input).queue (.cvarWaiters i) ∧
        ∀ p∈s.queue (.cvarWaiters i),(kernelStep M env s input).state p=.blocked) ∧
      ∀ e,entered s g input s.currentProcess=some e → e.context.vector=.kernel →
        M.syscallOf e.context.code=.cvarWait → Passed e s.currentProcess →
        Regains M e s.currentProcess (returnValue M env s input) (kernelStep M env s input) := by
  obtain ⟨hwait,horder⟩ := run_waiters (fun s env input hs => hs.1) h.run
  have hw : Watched M s g := run_watched (fun s env input hs => hs.1) h
  have hn : ∀ p,RefOk (Watching False) False p s.live s.kernelContext s.objects ∧
      Named False p s g :=
    fun p => run_named
      (fun s env input hs => ⟨hs.1,kept_allowed hs⟩) (fun _ _ _ _ _ _ _ hf => hf.elim)
      (fun i live saved ha hl hwp _ => ha p hl hwp) h
  refine ⟨horder,hwait,fun env input he hk => ⟨?_,?_,?_,?_⟩⟩
  · rintro u c i rfl hv hcall ho hi
    exact signal_step hw.toSettled he hv hcall ho hi
  · rintro u c i rfl hv hcall ho hi
    exact broadcast_step hw.toSettled he hv hcall ho hi
  · exact fun i hi => step_kept hw.toSettled hk.1 he hi
  · intro e hg hv hcall hp
    exact wait_regains hw he (hn _).1 (hn _).2 hg hv hcall hp

/-- A test that no object is reclaimed. -/
def keptTest (_ : Kernel) (env : Env) : Input → Bool
  | .trap u => env.switchOk && decide (objectMachine.syscallOf u.code≠.reclaim)
  | .resume => env.switchOk

/-- Steps that pass it keep all objects. -/
theorem keptTest_kept (s : Kernel) (env : Env) (input : Input) (h : keptTest s env input=true) :
    CvarsKept objectMachine s env input := by
  cases input with
  | trap u =>
    obtain ⟨hs,hc⟩ := Bool.and_eq_true_iff.1 h
    refine ⟨hs,?_⟩
    rintro u' hu _ hr
    injection hu with hu
    subst hu
    exact absurd hr (of_decide_eq_true hc)
  | resume =>
    refine ⟨h,?_⟩
    rintro u hu
    cases hu

/-- The initial process opens a lock and a condition variable, forks, acquires
the lock and waits; the child goes on. -/
def waitTrace : List (Env × Input) :=
  [callInput 13 0x105000 0 0,callInput 16 0x105000 0 0,forkInput 3 2,callInput 14 0 0 0,
    callInput 19 1 0 0,resumeInput]

/-- The initial process goes on in CvarWait with the lock free. -/
def goesOn (s : Kernel) (g : PcbPtr → Option Entry) : Bool :=
  match g 2 with
  | some e => decide (s.cpu=.kernel ∧ s.currentProcess=2 ∧ e.context.vector=.kernel ∧
      objectMachine.syscallOf e.context.code=.cvarWait ∧ e.context.int 0=1 ∧ e.context.int 1=0 ∧
      returnValue objectMachine (sampleEnv 0 0) s .resume=some SUCCESS) &&
    match e.objects 1,e.objects 0 with
    | .cvar _,.lock l => decide (l.owner=2)
    | _,_ => false
  | none => false

/-- The entry of a process that goes on. -/
theorem goesOn_passed {s : Kernel} {g : PcbPtr → Option Entry} (h : goesOn s g=true) :
    s.cpu=.kernel ∧ s.currentProcess=2 ∧
      returnValue objectMachine (sampleEnv 0 0) s .resume=some SUCCESS ∧
      ∃ e,g 2=some e ∧ e.context.vector=.kernel ∧
        objectMachine.syscallOf e.context.code=.cvarWait ∧ e.context.int 1=0 ∧ Passed e 2 := by
  unfold goesOn at h
  split at h
  · rename_i e he
    obtain ⟨hd,ho⟩ := Bool.and_eq_true_iff.1 h
    obtain ⟨hcpu,hcur,hv,hc,h0,h1,hret⟩ := of_decide_eq_true hd
    split at ho
    · rename_i c l hoc hol
      refine ⟨hcpu,hcur,hret,e,he,hv,hc,h1,⟨c,?_⟩,l,?_,of_decide_eq_true ho⟩
      · rw [h0]
        exact hoc
      · rw [h1]
        exact hol
    · cases ho
  · cases h

/-- Whether an object is a condition variable. -/
def isCvar : IpcObject → Bool
  | .cvar _ => true
  | _ => false

/-- A waiter is signalled, goes on and owns its lock again. -/
theorem run_cvars_signal :
    (∃ s g,EntryRun objectMachine (CvarsKept objectMachine) s g ∧ s.queue (.cvarWaiters 1)=[2] ∧
      MadeReady [2] s (kernelStep objectMachine (sampleEnv 0 0) s
        (.trap (sampleContext .kernel 17 1 0 0)))) ∧
    ∃ s g,EntryRun objectMachine (CvarsKept objectMachine) s g ∧ s.currentProcess=2 ∧
      ∃ l,(kernelStep objectMachine (sampleEnv 0 0) s .resume).objects 0=.lock l ∧ l.owner=2 := by
  refine ⟨?_,?_⟩
  · obtain ⟨s,g,hr,hp⟩ := replayEntries_exists keptTest_kept (.boot objectBoot objectBoot_user)
      waitTrace
      (fun s _ => decide (s.cpu=.user ∧ s.queue (.cvarWaiters 1)=[2]) && isCvar (s.objects 1))
      (by decide +kernel)
    obtain ⟨hd,ho⟩ := Bool.and_eq_true_iff.1 hp
    obtain ⟨hcpu,hq⟩ := of_decide_eq_true hd
    unfold isCvar at ho
    split at ho
    · rename_i c hc
      obtain ⟨_,_,hstep⟩ := run_cvars hr
      obtain ⟨hsig,_⟩ := hstep (sampleEnv 0 0) (.trap (sampleContext .kernel 17 1 0 0)) hcpu
        (keptTest_kept s _ _ rfl)
      obtain ⟨hm,_⟩ := hsig _ c 1 rfl rfl (by decide) hc (by decide)
      rw [hq] at hm
      exact ⟨s,g,hr,hq,hm⟩
    · cases ho
  · obtain ⟨s,g,hr,hp⟩ := replayEntries_exists keptTest_kept (.boot objectBoot objectBoot_user)
      (waitTrace++[callInput 17 1 0 0,tickInput]) goesOn (by decide +kernel)
    obtain ⟨hcpu,hcur,hret,e,he,hv,hc,h1,hpass⟩ := goesOn_passed hp
    obtain ⟨_,_,hstep⟩ := run_cvars hr
    obtain ⟨_,_,_,hwait⟩ := hstep (sampleEnv 0 0) .resume hcpu (keptTest_kept s _ _ rfl)
    rw [hcur] at hwait
    have hreg := hwait e he hv hc hpass
    rw [hret] at hreg
    obtain ⟨_,_,_,l,_,hl,how,_⟩ := hreg
    rw [h1] at hl
    exact ⟨s,g,hr,hcur,l,hl,how⟩

end Runs

end Yalnix.ConditionVariables

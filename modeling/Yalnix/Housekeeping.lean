import Yalnix.ProcessLifetime

/-!
# What queues, terminals and the scheduler leave alone

Processes are linked, picked, woken and released without a look at the process
table, at address spaces or at the buffers of reads. What is recorded on the
way are events of queues, locks and terminals. Properties that depend on
nothing else follow for all of these functions at once.
-/

namespace Yalnix.Housekeeping

open Framework FrameTable KernelState Scheduling Ipc Terminals ProcessLifetime

variable {M : Machine} {env : Env} {s t w : Kernel} {p : PcbPtr} {l : List Event} {e : Event}

/-- The processes, their identities and their address spaces. -/
structure Registry where
  /-- The processes that exist. -/
  live : PcbPtr → Bool
  /-- The identifier of each process. -/
  pid : PcbPtr → ℤ
  /-- The process table. -/
  table : ℕ → PcbPtr
  /-- The creation stamp of each process. -/
  birth : PcbPtr → ℕ
  /-- The exit status of each process. -/
  status : PcbPtr → ℤ
  /-- The address space of each process. -/
  space : PcbPtr → UserSpace

/-- The registry of a state. -/
def registry (s : Kernel) : Registry := ⟨s.live,s.pid,s.processTable,s.birth,s.exitStatus,s.space⟩

/-- Events of queues, locks and terminals. -/
def Routine : Event → Prop
  | .linked _ => True
  | .dispatched _ _ _ _ => True
  | .woken _ _ => True
  | .lockGranted _ _ => True
  | .lockReleased _ _ => True
  | .ttyReceived _ _ _ _ => True
  | .ttyTransmitted _ _ _ => True
  | .ttyCompleted _ => True
  | .ttyWriteReturned _ _ _ => True
  | _ => False

/-- The registry and the arguments of reads are kept, and only routine events
are recorded. -/
structure Keeping (s t : Kernel) : Prop where
  /-- The registry is the same. -/
  registry : registry t=Housekeeping.registry s
  /-- The destinations of the reads are the same. -/
  buf : ∀ q,(t.tty q).readBuf=(s.tty q).readBuf
  /-- The lengths of the reads are the same. -/
  len : ∀ q,(t.tty q).readLen=(s.tty q).readLen
  /-- Only routine events are recorded. -/
  log : ∃ l,t.log=s.log++l ∧ ∀ e∈l,Routine e

/-- The same processes exist, since the registry is kept. -/
theorem Keeping.live (h : Keeping s t) : t.live=s.live := congrArg Registry.live h.registry

/-- The identifiers are the same, since the registry is kept. -/
theorem Keeping.pid (h : Keeping s t) : t.pid=s.pid := congrArg Registry.pid h.registry

/-- The process table is the same, since the registry is kept. -/
theorem Keeping.table (h : Keeping s t) : t.processTable=s.processTable :=
  congrArg Registry.table h.registry

/-- The creation stamps are the same, since the registry is kept. -/
theorem Keeping.birth (h : Keeping s t) : t.birth=s.birth := congrArg Registry.birth h.registry

/-- The exit statuses are the same, since the registry is kept. -/
theorem Keeping.status (h : Keeping s t) : t.exitStatus=s.exitStatus :=
  congrArg Registry.status h.registry

/-- The address spaces are the same, since the registry is kept. -/
theorem Keeping.space (h : Keeping s t) : t.space=s.space := congrArg Registry.space h.registry

/-- Every state keeps its own registry. -/
theorem Keeping.refl (s : Kernel) : Keeping s s :=
  ⟨rfl,fun _ => rfl,fun _ => rfl,[],(List.append_nil _).symm,fun _ h => absurd h List.not_mem_nil⟩

/-- A change that keeps the registry may follow on another one. -/
theorem Keeping.trans (h : Keeping s t) (h' : Keeping t w) : Keeping s w := by
  obtain ⟨l,hl,hq⟩ := h.log
  obtain ⟨l',hl',hq'⟩ := h'.log
  refine ⟨h'.registry.trans h.registry,fun q => (h'.buf q).trans (h.buf q),
    fun q => (h'.len q).trans (h.len q),l++l',?_,fun e he => ?_⟩
  · rw [hl',hl,List.append_assoc]
  · exact (List.mem_append.1 he).elim (hq e) (hq' e)

/-- A change that records routine events. -/
theorem keeping_events (hr : registry t=registry s) (ht : t.tty=s.tty) (hl : t.log=s.log++l)
    (h : ∀ e∈l,Routine e) : Keeping s t :=
  ⟨hr,fun q => by rw [ht],fun q => by rw [ht],l,hl,h⟩

/-- A change that records one routine event. -/
theorem keeping_event (hr : registry t=registry s) (ht : t.tty=s.tty) (hl : t.log=s.log++[e])
    (h : Routine e) : Keeping s t :=
  keeping_events hr ht hl (fun x hx => by rw [List.mem_singleton.1 hx]; exact h)

/-- A change that records nothing. -/
theorem keeping_silent (hr : registry t=registry s) (ht : t.tty=s.tty) (hl : t.log=s.log) :
    Keeping s t :=
  keeping_events hr ht (hl.trans (List.append_nil _).symm) (fun _ h => absurd h List.not_mem_nil)

/-- The request of a process changes in fields that no read uses. -/
theorem keeping_request {r : TtyRequest} (hr : registry t=registry s)
    (ht : t.tty=Function.update s.tty p r) (hb : r.readBuf=(s.tty p).readBuf)
    (hn : r.readLen=(s.tty p).readLen) (hl : t.log=s.log++l) (h : ∀ e∈l,Routine e) :
    Keeping s t := by
  refine ⟨hr,fun q => ?_,fun q => ?_,l,hl,h⟩
  · by_cases hq : q=p
    · rw [ht,hq,Function.update_self,hb]
    · rw [ht,Function.update_of_ne hq]
  · by_cases hq : q=p
    · rw [ht,hq,Function.update_self,hn]
    · rw [ht,Function.update_of_ne hq]

section Scheduler

/-- ProcessMakeReady keeps the registry and the arguments of the reads. -/
theorem makeReady_keeping (s : Kernel) (q : PcbPtr) : Keeping s (processMakeReady s q) := by
  unfold processMakeReady
  split
  · exact .refl s
  · split
    · exact keeping_silent rfl rfl rfl
    · exact keeping_event rfl rfl rfl trivial

/-- The loop that wakes sleepers keeps the registry and the reads. -/
theorem wakeLoop_keeping (l : List ℕ) (s : Kernel) : Keeping s (l.foldl wakeIfOver s) := by
  induction l generalizing s with
  | nil => exact .refl s
  | cons i rest ih =>
    have hround : Keeping s (wakeIfOver s i) := by
      unfold wakeIfOver
      split
      · refine Keeping.trans ?_ (makeReady_keeping _ _)
        exact keeping_event rfl rfl rfl trivial
      · exact .refl s
    exact hround.trans (ih _)

/-- The running process is requeued. -/
theorem requeue_keeping (s : Kernel) : Keeping s (requeueCurrent s) := by
  unfold requeueCurrent
  split
  · exact makeReady_keeping _ _
  · exact .refl s

/-- The next process is picked. -/
theorem dispatchNext_keeping (s : Kernel) : Keeping s (dispatchNext M env s) := by
  unfold dispatchNext processSwitch
  split
  · exact keeping_event rfl rfl rfl trivial
  · split
    · exact keeping_event rfl rfl rfl trivial
    · exact keeping_event rfl rfl rfl trivial

/-- A switch to another process keeps the registry and the reads. -/
theorem schedule_keeping (s : Kernel) : Keeping s (processSchedule M env s) :=
  ((wakeLoop_keeping _ s).trans (requeue_keeping _)).trans (dispatchNext_keeping _)

/-- The scheduler behind the end of a process, also when the switch fails. -/
theorem leaveZombie_keeping (s : Kernel) : Keeping s (leaveZombie M env s) := by
  obtain ⟨hr,hb,hn,hl⟩ := @schedule_keeping M env s
  unfold leaveZombie
  split
  · exact ⟨hr,hb,hn,hl⟩
  · exact ⟨hr,hb,hn,hl⟩

end Scheduler

section Wakers

/-- Waking the first process of a queue keeps the registry and the reads. -/
theorem wakeOne_keeping (a : QueueAddr) (s : Kernel) : Keeping s (wakeOne a s).2 := by
  unfold wakeOne
  split
  · exact .refl s
  · refine Keeping.trans ?_ (makeReady_keeping _ _)
    exact keeping_event rfl rfl rfl trivial

/-- Waking a whole queue keeps the registry and the reads. -/
theorem wakeAll_keeping (a : QueueAddr) (s : Kernel) : Keeping s (wakeAll a s) := by
  have hrounds : ∀ n s,Keeping s ((fun s => (wakeOne a s).2)^[n] s) := by
    intro n
    induction n with
    | zero => exact fun s => .refl s
    | succ n ih =>
      intro s
      rw [Function.iterate_succ_apply]
      exact (wakeOne_keeping a s).trans (ih _)
  exact hrounds _ s

/-- LockRelease keeps the registry and the arguments of the reads. -/
theorem lockRelease_keeping (i : ℕ) (l : LockState) (s : Kernel) :
    Keeping s (lockRelease i l s) := by
  have hclear : Keeping s (clearOwner i l s) := keeping_event rfl rfl rfl trivial
  have hwake := hclear.trans (wakeOne_keeping (.lockWaiters i) (clearOwner i l s))
  unfold lockRelease
  split
  · exact hwake.trans (keeping_event rfl rfl rfl trivial)
  · exact hwake

/-- IpcProcessExit keeps the registry and the arguments of the reads. -/
theorem ipcProcessExit_keeping (p : PcbPtr) (s : Kernel) : Keeping s (ipcProcessExit p s) := by
  have hrounds : ∀ (l : List ℕ) s,Keeping s (l.foldl (releaseIfOwned p) s) := by
    intro l
    induction l with
    | nil => exact fun s => .refl s
    | cons i rest ih =>
      intro s
      refine Keeping.trans ?_ (ih _)
      unfold releaseIfOwned
      split
      · split
        · exact lockRelease_keeping i _ s
        · exact .refl s
      · exact .refl s
  exact hrounds _ s

/-- Orphaning the children keeps the registry and the reads. -/
theorem orphanChildren_keeping (c : PcbPtr) (l : List PcbPtr) (s : Kernel) :
    Keeping s (orphanChildren c l s) := by
  induction l generalizing s with
  | nil => exact .refl s
  | cons d rest ih =>
    refine Keeping.trans ?_ (ih _)
    exact keeping_silent rfl rfl rfl

/-- The links of a process that is destroyed. -/
theorem leaveLinks_keeping (c : PcbPtr) (s : Kernel) :
    Keeping s (leaveBlockQueue c (leaveReady c
      (orphanChildren c ((leaveParent c s).children c) (leaveParent c s)))) := by
  have hparent : Keeping s (leaveParent c s) := by
    unfold leaveParent
    split
    · exact keeping_silent rfl rfl rfl
    · exact .refl s
  have hqueue : ∀ v : Kernel,Keeping v (leaveBlockQueue c v) := by
    intro v
    unfold leaveBlockQueue
    split
    · exact .refl v
    · split
      · exact keeping_silent rfl rfl rfl
      · exact .refl v
  have hready : ∀ v : Kernel,Keeping v (leaveReady c v) := fun v => keeping_silent rfl rfl rfl
  have horphan := hparent.trans
    (orphanChildren_keeping c ((leaveParent c s).children c) (leaveParent c s))
  exact (horphan.trans (hready _)).trans (hqueue _)

end Wakers

section Terminals

/-- A writer without bytes left goes. -/
theorem finishWriter_keeping (i : ℕ) (s : Kernel) : Keeping s (finishWriter i s) := by
  unfold finishWriter
  refine Keeping.trans ?_ (makeReady_keeping _ _)
  exact keeping_event rfl rfl rfl trivial

/-- A chunk is passed to the hardware. -/
theorem ttyTransmit_keeping (i : ℕ) (s : Kernel) : Keeping s (ttyTransmit M i s) :=
  keeping_request rfl rfl rfl rfl rfl
    (fun e he => by rw [List.mem_singleton.1 he]; trivial)

/-- Starting the queued writes keeps the registry and the arguments of the reads. -/
theorem startWriteFrom_keeping (i n : ℕ) (s : Kernel) : Keeping s (startWriteFrom M i n s) := by
  induction n generalizing s with
  | zero => exact .refl s
  | succ n ih =>
    have hnext : ∀ c rest,Keeping s (nextWriter i c rest s) :=
      fun _ _ => keeping_event rfl rfl rfl trivial
    unfold startWriteFrom
    split
    · exact .refl s
    · split
      · split
        · exact .refl s
        · split
          · exact ((hnext _ _).trans (finishWriter_keeping i _)).trans (ih _)
          · exact (hnext _ _).trans (ttyTransmit_keeping i _)
      · split
        · exact (finishWriter_keeping i s).trans (ih _)
        · exact ttyTransmit_keeping i s

/-- TrapTtyTransmit keeps the registry and the arguments of the reads. -/
theorem trapTtyTransmit_keeping (u : UserContext) (s : Kernel) :
    Keeping s (trapTtyTransmit M u s) := by
  have hdone : Keeping s (transmitDone u.code.toNat s) := keeping_event rfl rfl rfl trivial
  unfold trapTtyTransmit ttyStartWrite
  split
  · exact .refl s
  · split
    · exact hdone.trans (startWriteFrom_keeping _ _ _)
    · split
      · refine (hdone.trans ?_).trans (startWriteFrom_keeping _ _ _)
        refine Keeping.trans ?_ (finishWriter_keeping _ _)
        exact keeping_silent rfl rfl rfl
      · exact hdone.trans (startWriteFrom_keeping _ _ _)

/-- TrapTtyReceive keeps the registry and the arguments of the reads. -/
theorem trapTtyReceive_keeping (u : UserContext) (s : Kernel) :
    Keeping s (trapTtyReceive M env u s) := by
  unfold trapTtyReceive
  split
  · exact .refl s
  · split
    · exact .refl s
    · split
      · exact .refl s
      · split
        · refine Keeping.trans ?_ (makeReady_keeping _ _)
          refine keeping_request rfl rfl rfl rfl rfl (fun e he => ?_)
          rcases List.mem_pair.1 he with rfl|rfl
          · trivial
          · trivial
        · exact keeping_event rfl rfl rfl trivial

end Terminals

end Yalnix.Housekeeping

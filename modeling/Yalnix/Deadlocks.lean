import Yalnix.WriteDurations
import Yalnix.ClockTicks
import Yalnix.Delays

/-!
# Deadlocks

When idle is current and nobody is ready, only an interrupt can make a process
run again. If no process sleeps, reads a terminal or writes to one, no interrupt
does, and the other processes have stopped for ever. If there is such a
process, some interrupts make a process run.
-/

namespace Yalnix.Deadlocks

open Framework FrameTable KernelState Scheduling Ipc Terminals ProcessLifetime ProgramLoading
open Syscalls Traps KernelStart Coherence Operations OperationCoherence StepOperations
open CallOperations RunInvariants Traces KernelEntries Continuations WriteDurations ClockTicks
open TerminalOutput

variable {M : Machine} {env : Env} {s t w : Kernel} {p : PcbPtr} {u : UserContext} {i d : ℕ}
  {l : List (Env × Input)}

section Rest

/-- What happens while idle runs: DoIdle makes no calls and faults nowhere, so
only interrupts come in. -/
def FromOutside : Input → Prop
  | .trap u => u.vector=.clock ∨ u.vector=.ttyReceive ∨ u.vector=.ttyTransmit ∨ u.vector=.disk ∨
    u.vector=.other
  | .resume => True

/-- The helpers do their part, and idle runs DoIdle. -/
def Idling (M : Machine) (s : Kernel) (env : Env) (input : Input) : Prop :=
  Delays.DelayEnv M s env input ∧ (s.currentProcess=s.idleProcess → FromOutside input)

/-- The machine runs, idle is current and nobody is ready. -/
structure Idle (s : Kernel) : Prop where
  /-- The idle process is the current one. -/
  current : s.currentProcess=s.idleProcess
  /-- The ready queue is empty. -/
  ready : s.readyQueue=[]
  /-- The machine has not stopped. -/
  running : s.cpu=.user ∨ s.cpu=.kernel

/-- An interrupt can end this reason: a line of the terminal, the completion of a
chunk, or the clock, which wakes processes of the process table only. -/
def External (M : Machine) (s : Kernel) (p : PcbPtr) : Reason → Prop
  | .delay => 0≤ s.pid p ∧ s.pid p<M.maxProcs
  | .queue (.readQueue _) => True
  | .queue (.writeQueue _) => True
  | .writer _ => True
  | _ => False

/-- Nobody waits for an interrupt. -/
def Stuck (M : Machine) (s : Kernel) : Prop :=
  ∀ p r,s.live p=true → BlockedBy s p r → ¬External M s p r

/-- Nothing has happened to the processes other than idle. -/
structure Resting (s t : Kernel) : Prop where
  /-- The current process is the same one. -/
  current : t.currentProcess=s.currentProcess
  /-- The idle process is the same one. -/
  idle : t.idleProcess=s.idleProcess
  /-- The ready queue is the same. -/
  ready : t.readyQueue=s.readyQueue
  /-- The same processes exist. -/
  live : t.live=s.live
  /-- Every process has the same identifier. -/
  pid : t.pid=s.pid
  /-- Every process is in the same state. -/
  state : t.state=s.state
  /-- Every sleeping process has the same deadline. -/
  delay : t.delayUntil=s.delayUntil
  /-- The same processes wait for a child. -/
  waiting : t.waitingForChild=s.waitingForChild
  /-- Every queue has the same processes in the same order. -/
  queue : t.queue=s.queue
  /-- The table of objects is the same. -/
  objects : t.objects=s.objects
  /-- Every process has the same children. -/
  children : t.children=s.children
  /-- Every process has the same address space. -/
  space : t.space=s.space
  /-- Every terminal has the same writer. -/
  writer : ∀ i,(t.terminals i).writer=(s.terminals i).writer
  /-- The stacks of the other processes are kept. -/
  saved : ∀ p,p≠s.idleProcess → t.kernelContext p=s.kernelContext p
  /-- The registers of the other processes are kept. -/
  context : ∀ p,p≠s.idleProcess → t.userContext p=s.userContext p

/-- One step after the other. -/
theorem Resting.trans (h : Resting s t) (h' : Resting t w) : Resting s w :=
  ⟨h'.current.trans h.current,h'.idle.trans h.idle,h'.ready.trans h.ready,h'.live.trans h.live,
    h'.pid.trans h.pid,h'.state.trans h.state,h'.delay.trans h.delay,h'.waiting.trans h.waiting,
    h'.queue.trans h.queue,h'.objects.trans h.objects,h'.children.trans h.children,
    h'.space.trans h.space,fun i => (h'.writer i).trans (h.writer i),
    fun p hp => (h'.saved p (by rwa [h.idle])).trans (h.saved p hp),
    fun p hp => (h'.context p (by rwa [h.idle])).trans (h.context p hp)⟩

/-- Idle is still the only one that can run. -/
theorem Resting.idling (h : Resting s t) (hi : Idle s) (hr : t.cpu=.user ∨ t.cpu=.kernel) :
    Idle t :=
  ⟨h.current.trans (hi.current.trans h.idle.symm),h.ready.trans hi.ready,hr⟩

/-- The processes have the same reasons. -/
theorem Resting.reasons (h : Resting s t) (p : PcbPtr) (r : Reason) :
    BlockedBy t p r ↔ BlockedBy s p r := by
  cases r with
  | delay =>
    dsimp only [BlockedBy,Waits]
    rw [h.delay]
  | child =>
    dsimp only [BlockedBy,Waits]
    rw [h.waiting]
  | queue q =>
    dsimp only [BlockedBy,Waits]
    rw [h.queue]
  | writer i =>
    dsimp only [BlockedBy,Waits]
    rw [h.writer i]

/-- What can end a reason is the same. -/
theorem Resting.external (h : Resting s t) (p : PcbPtr) (r : Reason) :
    External M t p r ↔ External M s p r := by
  cases r with
  | delay =>
    dsimp only [External]
    rw [h.pid]
  | child => exact Iff.rfl
  | queue q =>
    cases q with
    | readQueue i => exact Iff.rfl
    | writeQueue i => exact Iff.rfl
    | _ => exact Iff.rfl
  | writer i => exact Iff.rfl

/-- Processes that are stuck stay so. -/
theorem Resting.stuck (h : Resting s t) (hs : Stuck M s) : Stuck M t := by
  intro p r hl hb he
  rw [h.live] at hl
  exact hs p r hl ((h.reasons p r).1 hb) ((h.external p r).1 he)

/-- The tail of a trap that only returns. -/
theorem resting_return (h : Resting s t) : Resting s (returnToUser u t) :=
  ⟨h.current,h.idle,h.ready,h.live,h.pid,h.state,h.delay,h.waiting,h.queue,h.objects,h.children,
    h.space,h.writer,h.saved,h.context⟩

/-- Every state rests relative to itself. -/
theorem Resting.refl (s : Kernel) : Resting s s :=
  ⟨rfl,rfl,rfl,rfl,rfl,rfl,rfl,rfl,rfl,rfl,rfl,rfl,fun _ => rfl,fun _ _ => rfl,fun _ _ => rfl⟩

/-- Nobody's delay is over at the next tick. -/
def NobodyDue (M : Machine) (s : Kernel) : Prop := due M (tickClock s)=[]

/-- A tick with nobody due and nobody ready comes back to idle. -/
theorem clock_rests (env : Env) (hr : Reachable M s) (hu : s.cpu=.user) (hs : env.switchOk=true)
    (hv : u.vector=.clock) (hidle : Idle s) (hd : NobodyDue M s) :
    Resting s (kernelStep M env s (.trap u)) ∧ (kernelStep M env s (.trap u)).cpu=.kernel ∧
      (kernelStep M env s (.trap u)).clockTicks=(s.clockTicks+1)%2^32 := by
  have hreq : requeued s=[] := if_neg (fun h => h.1 hidle.current)
  have hline : lineUp M (tickClock s)=[] := by
    unfold lineUp
    rw [hd]
    change s.readyQueue++[]++requeued s=[]
    rw [hreq,hidle.ready]
    rfl
  have hpick : pick M (tickClock s)=s.currentProcess := by
    unfold pick
    rw [hline,hidle.current]
    rfl
  have hother : ∀ {α : Type} {f : PcbPtr → α} {x : α} (p : PcbPtr),p≠s.idleProcess →
      Function.update f s.currentProcess x p=f p :=
    fun p hp => Function.update_of_ne (by rwa [hidle.current]) ..
  obtain ⟨log,he⟩ := clock_tick hr hu hs hv
  unfold NobodyDue at hd
  rw [hd,hreq,hpick,hline] at he
  rw [he]
  refine ⟨⟨rfl,rfl,hidle.ready.symm,rfl,rfl,?_,?_,rfl,rfl,rfl,rfl,rfl,fun _ => rfl,hother,hother⟩,
    rfl,rfl⟩
  · funext p
    dsimp only
    rw [if_neg (fun h => h.2 h.1)]
    exact if_neg List.not_mem_nil
  · funext p
    dsimp only
    exact if_neg List.not_mem_nil

/-- A terminal changes, but not its writer. -/
theorem writer_same {terminals : ℕ → TtyState} {j : ℕ} {v : TtyState}
    (hv : v.writer=(terminals j).writer) (i : ℕ) :
    (Function.update terminals j v i).writer=(terminals i).writer := by
  by_cases hij : i=j
  · subst hij
    rw [Function.update_self]
    exact hv
  · rw [Function.update_of_ne hij]

/-- A line that nobody waits for. -/
theorem receive_rests (hn : ∀ i,s.queue (.readQueue i)=[]) :
    Resting s (trapTtyReceive M env u s) := by
  unfold trapTtyReceive
  split
  · exact .refl s
  · split
    · exact .refl s
    · split
      · exact .refl s
      · rw [hn]
        refine ⟨rfl,rfl,rfl,rfl,rfl,rfl,rfl,rfl,rfl,rfl,rfl,rfl,fun i => ?_,fun _ _ => rfl,
          fun _ _ => rfl⟩
        exact writer_same (j := u.code.toNat) (v := {s.terminals u.code.toNat with
          inputQueue := (s.terminals u.code.toNat).inputQueue++
            [⟨s.stamp,env.ttyReceive.toNat,0,env.ttyData⟩]}) rfl i

/-- A completion trap that nobody waits for. -/
theorem transmit_rests (hc : Coherent M s) (hn : ∀ i,(s.terminals i).writer=0) :
    Resting s (trapTtyTransmit M u s) := by
  unfold trapTtyTransmit
  split
  · exact .refl s
  · rw [if_pos (hn _)]
    have hq : s.queue (.writeQueue u.code.toNat)=[] := by
      by_contra hne
      exact hc.writer.queued _ hne (hn _)
    have he : ttyStartWrite M u.code.toNat (transmitDone u.code.toNat s)=
        transmitDone u.code.toNat s := by
      unfold ttyStartWrite startWriteFrom
      rw [if_neg (by simp [transmitDone]),if_pos (by simpa [transmitDone] using hn _)]
      simp [transmitDone,hq]
    rw [he]
    refine ⟨rfl,rfl,rfl,rfl,rfl,rfl,rfl,rfl,rfl,rfl,rfl,rfl,fun i => ?_,fun _ _ => rfl,
      fun _ _ => rfl⟩
    exact writer_same (j := u.code.toNat) (v := {s.terminals u.code.toNat with busy := false}) rfl i

/-- Idle goes on where it was stopped. -/
theorem resume_rests (env : Env) (hs : Settled M s) (hk : s.cpu=.kernel)
    (hi : s.currentProcess=s.idleProcess) :
    Resting s (resume M env s) ∧ (resume M env s).cpu=.user ∧
      (resume M env s).clockTicks=s.clockTicks := by
  have hother : ∀ {x : KernelContext} (p : PcbPtr),p≠s.idleProcess →
      Function.update s.kernelContext s.currentProcess x p=s.kernelContext p :=
    fun p hp => Function.update_of_ne (by rwa [hi]) ..
  have hne := (hs.kernel hk).2
  unfold resume continueAt
  rw [hi] at hne ⊢
  rcases hs.saved.idle with he|he|he
  · exact absurd he hne
  · rw [he]
    exact ⟨resting_return ⟨rfl,rfl,rfl,rfl,rfl,rfl,rfl,rfl,rfl,rfl,rfl,rfl,fun _ => rfl,
      fun p hp => Function.update_of_ne hp ..,fun _ _ => rfl⟩,rfl,rfl⟩
  · rw [he]
    exact ⟨resting_return ⟨rfl,rfl,rfl,rfl,rfl,rfl,rfl,rfl,rfl,rfl,rfl,rfl,fun _ => rfl,
      fun p hp => Function.update_of_ne hp ..,fun _ _ => rfl⟩,rfl,rfl⟩

/-- Nobody who is stuck waits at a terminal. -/
theorem Stuck.terminals (h : Stuck M s) (hc : Coherent M s) :
    (∀ i,s.queue (.readQueue i)=[]) ∧ ∀ i,(s.terminals i).writer=0 := by
  constructor
  · intro i
    refine List.eq_nil_iff_forall_not_mem.2 (fun p hm => ?_)
    exact h p (.queue (.readQueue i)) (hc.block.queue_live _ p hm) hm trivial
  · intro i
    by_contra hw
    exact h _ (.writer i) (hc.block.writer_live i hw) rfl trivial

/-- Nobody who is stuck becomes due. -/
theorem Stuck.nobodyDue (h : Stuck M s) (hc : Coherent M s) : NobodyDue M s := by
  refine List.eq_nil_iff_forall_not_mem.2 (fun p hm => ?_)
  obtain ⟨i,hf,hp⟩ := List.mem_map.1 hm
  obtain ⟨h0,_,hd,_⟩ := of_decide_eq_true (List.mem_filter.1 hf).2
  obtain ⟨hl,hpid,hlt⟩ := hc.table i h0
  exact h _ .delay hl hd ⟨by rw [hpid]; omega,by rw [hpid]; omega⟩

/-- No interrupt changes anything for processes that are stuck. -/
theorem stuck_step (hreach : Reachable M s) (hidle : Idle s) (hst : Stuck M s) {input : Input}
    (hsw : env.switchOk=true) (he : input.Enabled s) (ho : FromOutside input) :
    Resting s (kernelStep M env s input) ∧ Idle (kernelStep M env s input) := by
  have hs := reachable_settled hreach
  have hc := hs.toCoherent
  obtain ⟨hread,hwrite⟩ := hst.terminals hc
  have hback : ∀ {t v},Resting s t → Resting s (returnToUser v t) ∧ Idle (returnToUser v t) := by
    intro t v h
    have hr := resting_return (u := v) h
    exact ⟨hr,hr.idling hidle (.inl rfl)⟩
  cases input with
  | resume =>
    obtain ⟨hr,hu,_⟩ := resume_rests env hs he hidle.current
    exact ⟨hr,hr.idling hidle (.inl hu)⟩
  | trap u =>
    rcases ho with hv|hv|hv|hv|hv
    · obtain ⟨hr,hk,_⟩ := clock_rests env hreach he hsw hv hidle (hst.nobodyDue hc)
      exact ⟨hr,hr.idling hidle (.inr hk)⟩
    · dsimp only [kernelStep,trap]
      rw [hv]
      exact hback (receive_rests hread)
    · dsimp only [kernelStep,trap]
      rw [hv]
      exact hback (transmit_rests hc hwrite)
    · dsimp only [kernelStep,trap]
      rw [hv]
      exact hback (.refl s)
    · dsimp only [kernelStep,trap]
      rw [hv]
      exact hback (.refl s)

/-- As long as idle runs, nothing happens to processes that are stuck. -/
theorem later_stuck (hr : Reachable M s) (hidle : Idle s) (hst : Stuck M s)
    (h : Later M (Idling M) s l t) : Resting s t ∧ Idle t := by
  induction h with
  | refl => exact ⟨.refl s,hidle⟩
  | @step l t env input hprev he hok ih =>
    obtain ⟨hrest,hi⟩ := ih
    have hreach := (hprev.mono (fun _ _ _ h => h.1.1)).run hr
    obtain ⟨hone,hi'⟩ := stuck_step hreach hi (hrest.stuck hst) hok.1.1 he (hok.2 hi.current)
    exact ⟨hrest.trans hone,hi'⟩

end Rest

section Ranges

/-- Deadlines and terminals are numbers that the machine has. -/
structure Ranged (M : Machine) (s : Kernel) : Prop where
  /-- Deadlines are counted modulo 2^32. -/
  delay : ∀ p,s.delayUntil p<2^32
  /-- Only terminals that exist have a writer. -/
  writer : ∀ i,(s.terminals i).writer≠0 → i<M.numTerminals

/-- No deadline is set, and no writer comes. -/
theorem Ranged.of_same (h : Ranged M s) (hd : t.delayUntil=s.delayUntil)
    (hw : ∀ i,(t.terminals i).writer≠0 → (s.terminals i).writer≠0) : Ranged M t :=
  ⟨fun p => by rw [hd]; exact h.delay p,fun i hi => h.writer i (hw i hi)⟩

/-- A new deadline keeps all deadlines in range. -/
theorem Ranged.set_delay (h : Ranged M s) (hd : t.delayUntil=Function.update s.delayUntil p d)
    (hlt : d<2^32) (hw : t.terminals=s.terminals) : Ranged M t := by
  refine ⟨fun q => ?_,fun i hi => h.writer i (by rwa [hw] at hi)⟩
  rw [hd]
  by_cases hq : q=p
  · subst hq
    rw [Function.update_self]
    exact hlt
  · rw [Function.update_of_ne hq]
    exact h.delay q

/-- A terminal that exists changes. -/
theorem Ranged.set_terminal (h : Ranged M s) {v : TtyState} (hd : t.delayUntil=s.delayUntil)
    (hv : v.writer≠0 → i<M.numTerminals) (hw : t.terminals=Function.update s.terminals i v) :
    Ranged M t := by
  refine ⟨fun p => by rw [hd]; exact h.delay p,fun j hj => ?_⟩
  rw [hw] at hj
  by_cases hij : j=i
  · subst hij
    rw [Function.update_self] at hj
    exact hv hj
  · rw [Function.update_of_ne hij] at hj
    exact h.writer j hj

/-- Every operation keeps them in their ranges. -/
theorem op_ranged {c : Bool} (hc : Coherent M s) (h : Ranged M s)
    (hop : Op M (fun _ => True) c s t) : Ranged M t := by
  have htransmit : ∀ {v i},Ranged M v → Ranged M (ttyTransmit M i v) := by
    intro v i hv
    refine hv.set_terminal (i := i) rfl (fun hw => hv.writer i ?_) rfl
    exact hw
  cases hop with
  | dispatch e hs ho =>
    have he := dispatchNext_eq hc hs
    rw [he]
    exact h.of_same rfl (fun _ hi => hi)
  | sleepOver q hl ho => exact h.set_delay rfl (by decide) rfl
  | blockDelay ticks k u hk hb => exact h.set_delay rfl (Nat.mod_lt _ (by decide)) rfl
  | forkUndone e q pfns pt m₁ m u ha hcp =>
    obtain ⟨h0,hl⟩ := callocPcb_fresh hcp
    rw [destroyed_child hc h0 hl]
    exact h.set_delay (p := q) (d := 0) rfl (by decide) rfl
  | spawn e caller q pfns pt m₁ m u hb hcp =>
    rw [spawn_eq]
    exact h.set_delay (p := q) (d := 0) rfl (by decide) rfl
  | collect statusPtr q ha hch hz =>
    rw [collectChild_eq hc ha statusPtr hch hz]
    exact h.of_same rfl (fun _ hi => hi)
  | startWrite e j buf len k u hk hb ht hl hw =>
    have hbecome : Ranged M (becomeWriter j (prepareWrite e k j buf len u s)) :=
      h.set_terminal (i := j) rfl (fun _ => ht) rfl
    exact htransmit hbecome
  | takeHanded j line =>
    refine h.set_terminal (i := j) rfl (fun hw => h.writer j ?_) rfl
    rwa [←(takeBytes_keeps line (lineCount line (s.tty s.currentProcess).readLen)
      (v := s.terminals j) rfl rfl).1]
  | takeLine j line v ha hn =>
    obtain ⟨hv,hb⟩ := ttyNextLine_writer hn
    refine h.set_terminal (i := j) rfl (fun hw => h.writer j ?_) rfl
    rwa [←(takeBytes_keeps line (lineCount line (s.tty s.currentProcess).readLen) hv hb).1]
  | enqueue j line =>
    refine h.set_terminal (i := j) rfl (fun hw => h.writer j ?_) rfl
    exact hw
  | transmitSpurious j hw =>
    refine h.set_terminal (i := j) rfl (fun hw => h.writer j ?_) rfl
    exact hw
  | transmitMore j hw =>
    have hdone : Ranged M (transmitDone j s) :=
      h.set_terminal (i := j) rfl (fun _ => h.writer j hw) rfl
    exact htransmit hdone
  | transmitLast j u hw => exact h.set_terminal (i := j) rfl (fun _ => h.writer j hw) rfl
  | transmitNext j u w rest hw =>
    have hrelease : Ranged M (releaseWriter j u s) :=
      h.set_terminal (i := j) rfl (fun _ => h.writer j hw) rfl
    have hnext : Ranged M (nextWriter j w rest (releaseWriter j u s)) :=
      hrelease.set_terminal (i := j) rfl (fun _ => h.writer j hw) rfl
    exact htransmit hnext
  | _ => exact h.of_same rfl (fun _ hi => hi)

/-- In every reachable state they are in their ranges. -/
theorem reachable_ranged (h : Reachable M s) : Ranged M s := by
  refine (reachable_invariant (P := Ranged M) ?_ (fun _ _ _ hc hp hop => op_ranged hc hp hop) h).2
  intro b p q pfn pfns m₁ m₂ m v u _
  refine ⟨fun x => ?_,fun i hi => absurd rfl hi⟩
  change 0<2^32
  decide

end Ranges

section Wakings

/-- The machine takes up a process other than idle. -/
def Wakes (M : Machine) (s : Kernel) : Prop :=
  ∃ l t,Later M (Idling M) s l t ∧ t.currentProcess≠t.idleProcess

/-- If idle is left later, it can be left now. -/
theorem Wakes.later (h : Later M (Idling M) s l t) (hw : Wakes M t) : Wakes M s := by
  obtain ⟨l',w,h',hne⟩ := hw
  exact ⟨_,w,h.trans h',hne⟩

/-- In user mode an interrupt can come, and the run goes on behind it. -/
theorem later_interrupt {v : TrapVector} (code : ℤ) (hu : s.cpu=.user)
    (hv : v=.clock ∨ v=.ttyReceive ∨ v=.ttyTransmit) :
    Later M (Idling M) s [(sampleEnv 0 0,.trap (sampleContext v code 0 0 0))]
      (kernelStep M (sampleEnv 0 0) s (.trap (sampleContext v code 0 0 0))) := by
  refine .step (sampleEnv 0 0) (.trap (sampleContext v code 0 0 0)) .refl hu
    ⟨⟨rfl,fun hf => ?_⟩,fun _ => ?_⟩
  · have hk : v=.kernel := hf.1
    rw [hk] at hv
    rcases hv with hv|hv|hv
    · cases hv
    · cases hv
    · cases hv
  · rcases hv with rfl|rfl|rfl
    · exact .inl rfl
    · exact .inr (.inl rfl)
    · exact .inr (.inr (.inl rfl))

/-- Idle comes back to user mode. -/
theorem back_to_user (hr : Reachable M s) (hidle : Idle s) :
    ∃ l t,Later M (Idling M) s l t ∧ Resting s t ∧ t.clockTicks=s.clockTicks ∧ Idle t ∧
      t.cpu=.user := by
  rcases hidle.running with hu|hk
  · exact ⟨[],s,.refl,.refl s,rfl,hidle,hu⟩
  · obtain ⟨hrest,hu,hticks⟩ := resume_rests (sampleEnv 0 0) (reachable_settled hr) hk hidle.current
    exact ⟨_,_,.step (sampleEnv 0 0) .resume .refl hk ⟨⟨rfl,fun hf => hf.elim⟩,fun _ => trivial⟩,
      hrest,hticks,hrest.idling hidle (.inl hu),hu⟩

/-- A tick takes up the first process that is ready or due. -/
theorem tick_wakes (hr : Reachable M s) (hu : s.cpu=.user)
    (hne : lineUp M (tickClock s)≠[]) : Wakes M s := by
  refine ⟨_,_,later_interrupt (v := .clock) 0 hu (.inl rfl),?_⟩
  obtain ⟨log,he⟩ := clock_tick (u := sampleContext .clock 0 0 0 0) hr hu
    (rfl : (sampleEnv 0 0).switchOk=true) rfl
  have hc : Coherent M (tickClock s) :=
    op_coherent (reachable_settled hr).toCoherent (.tick : Op M (fun _ => True) true s _)
  rw [he]
  exact pick_other hc hne

/-- Once a process is ready, idle can be left. -/
theorem ready_wakes (hr : Reachable M s) (hu : s.cpu=.user) (hne : s.readyQueue≠[]) :
    Wakes M s := by
  refine tick_wakes hr hu (fun h => hne ?_)
  unfold lineUp at h
  exact (List.append_eq_nil_iff.1 (List.append_eq_nil_iff.1 h).1).1

/-- A process in the table whose deadline the clock reaches is due. -/
theorem due_mem (hl : Delays.Listed M s) (hc : Coherent M s) (hp : s.live p=true)
    (hid : 0≤ s.pid p ∧ s.pid p<M.maxProcs) (h0 : s.delayUntil p≠0)
    (ht : s.delayUntil p≤(s.clockTicks+1)%2^32) : p∈due M (tickClock s) := by
  have htable := hl p hp hid.1 hid.2
  have hover : DelayOver (tickClock s) p :=
    ⟨hc.ready.ne_null hp,hc.block.reasons.blocked p .delay hp h0,h0,ht⟩
  refine List.mem_map.2 ⟨(s.pid p).toNat,List.mem_filter.2 ⟨List.mem_range.2 ?_,?_⟩,htable⟩
  · omega
  · refine decide_eq_true ?_
    change DelayOver (tickClock s) (s.processTable (s.pid p).toNat)
    rw [htable]
    exact hover

/-- The clock reaches the deadline of a process that sleeps. -/
theorem sleeper_wakes {k : ℕ} (hr : Delays.DelayRun M s) (hidle : Idle s) (hu : s.cpu=.user)
    (hp : s.live p=true) (hid : 0≤ s.pid p ∧ s.pid p<M.maxProcs) (h0 : s.delayUntil p≠0)
    (hk : (s.clockTicks+k+1)%2^32=s.delayUntil p) : Wakes M s := by
  induction k generalizing s with
  | zero =>
    have hc := (reachable_settled hr.reachable).toCoherent
    have hdue := due_mem (Delays.run_listed hr) hc hp hid h0
      (Nat.le_of_eq (by rw [←hk,Nat.add_zero]))
    refine tick_wakes hr.reachable hu (fun h => ?_)
    have hempty := (List.append_eq_nil_iff.1 (List.append_eq_nil_iff.1 h).1).2
    rw [hempty] at hdue
    cases hdue
  | succ k ih =>
    by_cases hd : NobodyDue M s
    · have hstep := later_interrupt (M := M) (v := .clock) 0 hu (.inl rfl)
      obtain ⟨hrest,hkernel,hticks⟩ := clock_rests (u := sampleContext .clock 0 0 0 0)
        (sampleEnv 0 0) hr.reachable hu rfl rfl hidle hd
      have hr' : Delays.DelayRun M _ := (hstep.mono (fun _ _ _ h => h.1)).run hr
      have hidle' := hrest.idling hidle (.inr hkernel)
      obtain ⟨l,t,hback,hrest',hticks',hidle'',huser⟩ := back_to_user hr'.reachable hidle'
      have hall := hrest.trans hrest'
      refine Wakes.later (hstep.trans hback) (ih ((hback.mono (fun _ _ _ h => h.1)).run hr') hidle''
        huser (by rwa [hall.live]) (by rwa [hall.pid]) (by rwa [hall.delay]) ?_)
      rw [hticks',hticks,hall.delay]
      omega
    · refine tick_wakes hr.reachable hu (fun h => hd ?_)
      exact (List.append_eq_nil_iff.1 (List.append_eq_nil_iff.1 h).1).2

/-- A line wakes a process that reads a terminal. -/
theorem reader_wakes (hr : Reachable M s) (hu : s.cpu=.user)
    (hq : p∈s.queue (.readQueue i)) : Wakes M s := by
  have hc := (reachable_settled hr).toCoherent
  have hlt : i<M.numTerminals := hc.home _ (List.ne_nil_of_mem hq)
  have hstep := later_interrupt (M := M) (v := .ttyReceive) i hu (.inr (.inl rfl))
  refine Wakes.later hstep (ready_wakes ((hstep.mono (fun _ _ _ h => h.1.1)).run hr) rfl ?_)
  cases hline : s.queue (.readQueue i) with
  | nil =>
    rw [hline] at hq
    cases hq
  | cons x rest =>
    have hx : x∈s.queue (.readQueue i) := by
      rw [hline]
      exact List.mem_cons_self
    have hl := hc.block.queue_live _ x hx
    have hb := hc.block.reasons.blocked x (.queue (.readQueue i)) hl hx
    have hidle : x≠s.idleProcess := by
      rintro rfl
      rw [hc.ready.idle_running] at hb
      cases hb
    have hmade : ∀ line,x∈(deliverLine i line x rest s).readyQueue := by
      intro line
      have hz : s.state x≠.zombie := by
        rw [hb]
        decide
      unfold deliverLine
      exact And.right (Delays.makeReady_self (hc.ready.ne_null hl) hidle hz)
    refine List.ne_nil_of_mem (a := x) ?_
    dsimp only [kernelStep,trap,sampleContext,returnToUser]
    unfold trapTtyReceive
    rw [if_neg (by simp [ttyValid,hlt]),if_neg (by decide),if_neg (by decide)]
    dsimp only
    rw [Int.toNat_natCast,hline]
    exact hmade _

/-- A completion trap does not change who is current. -/
theorem transmit_current (hc : Coherent M s) (hw : (s.terminals i).writer≠0)
    (hv : ttyValid M u.code=true) (hi : u.code.toNat=i) :
    (trapTtyTransmit M u s).currentProcess=s.currentProcess ∧
      (trapTtyTransmit M u s).idleProcess=s.idleProcess := by
  by_cases hf : (s.tty (s.terminals i).writer).writeOffset<(s.tty (s.terminals i).writer).writeLen
  · rw [trapTtyTransmit_more hv hi hw hf]
    exact ⟨rfl,rfl⟩
  · obtain ⟨c,⟨_,he⟩|⟨w,rest,_,he⟩⟩ := trapTtyTransmit_done hc hv hi hw (Nat.le_of_not_lt hf)
    · rw [he]
      exact ⟨rfl,rfl⟩
    · rw [he]
      exact ⟨rfl,rfl⟩

/-- The completion traps of a terminal wake those who write to it. -/
theorem writer_wakes (hr : Reachable M s) (hi : s.currentProcess=s.idleProcess) (hu : s.cpu=.user)
    (hd : Due M i s p d) : Wakes M s := by
  induction d generalizing s with
  | zero =>
    obtain ⟨k,_,hd⟩ := hd
    omega
  | succ d ih =>
    have hc := (reachable_settled hr).toCoherent
    have hw : (s.terminals i).writer≠0 := by
      intro hw
      obtain ⟨k,hk,_⟩ := hd
      rw [line_nil hc hw] at hk
      cases hk
    have hlt : i<M.numTerminals := (reachable_ranged hr).writer i hw
    have hstep := later_interrupt (M := M) (v := .ttyTransmit) i hu (.inr (.inr rfl))
    have hr' := (hstep.mono (fun _ _ _ h => h.1.1)).run hr
    have hv : ttyValid M (sampleContext .ttyTransmit i 0 0 0).code=true := by
      simp [ttyValid,sampleContext,hlt]
    have hn : (sampleContext .ttyTransmit i 0 0 0).code.toNat=i := Int.toNat_natCast i
    obtain ⟨hcur,hidle⟩ := transmit_current hc hw hv hn
    refine Wakes.later hstep ?_
    rcases completed_due hc hv hn hd with ⟨_,_,hready⟩|⟨_,hdue⟩
    · exact ready_wakes hr' rfl (List.ne_nil_of_mem hready)
    · exact ih hr' (hcur.trans (hi.trans hidle.symm)) rfl hdue

/-- Whoever waits for an interrupt gets the machine going. -/
theorem external_wakes {r : Reason} (hr : Delays.DelayRun M s) (hidle : Idle s)
    (hl : s.live p=true) (hb : BlockedBy s p r) (he : External M s p r) : Wakes M s := by
  obtain ⟨l,t,hlater,hrest,_,hidle',hu⟩ := back_to_user hr.reachable hidle
  have hr' : Delays.DelayRun M t := (hlater.mono (fun _ _ _ h => h.1)).run hr
  have hl' : t.live p=true := by rwa [hrest.live]
  have hb' := (hrest.reasons p r).2 hb
  have he' := (hrest.external (M := M) p r).2 he
  have hc := (reachable_settled hr'.reachable).toCoherent
  refine Wakes.later hlater ?_
  have hwrites : ∀ i,p∈outputLine i t → Wakes M t := by
    intro i hm
    obtain ⟨k,hk⟩ := List.mem_iff_getElem?.1 hm
    exact writer_wakes hr'.reachable hidle'.current hu ⟨k,hk,rfl⟩
  cases r with
  | delay =>
    have hlt := (reachable_ranged hr'.reachable).delay p
    refine sleeper_wakes (k := t.delayUntil p+2^32*(t.clockTicks+1)-(t.clockTicks+1)) hr' hidle' hu
      hl' he' hb' ?_
    omega
  | child => exact he'.elim
  | queue q =>
    cases q with
    | readQueue i => exact reader_wakes hr'.reachable hu hb'
    | writeQueue i =>
      have hm : p∈t.queue (.writeQueue i) := hb'
      exact hwrites i (List.mem_append_right _ hm)
    | _ => exact he'.elim
  | writer i =>
    have hw : (t.terminals i).writer=p := hb'
    refine hwrites i (List.mem_append_left _ ?_)
    rw [hw,if_neg (hc.ready.ne_null hl')]
    exact List.mem_cons_self

/-- When only idle can run, the other processes have stopped for ever, whatever
interrupts come, exactly if none of them sleeps under an identifier of the
process table, reads a terminal or writes to one. -/
theorem idle_for_ever (hr : Delays.DelayRun M s) (hidle : Idle s) :
    (∀ l t,Later M (Idling M) s l t → t.currentProcess=t.idleProcess) ↔ Stuck M s := by
  constructor
  · intro hnever p r hl hb he
    obtain ⟨l,t,hlater,hne⟩ := external_wakes hr hidle hl hb he
    exact hne (hnever l t hlater)
  · intro hst l t hlater
    exact (later_stuck hr.reachable hidle hst hlater).2.current

/-- Init sleeps, and an interrupt wakes it. -/
theorem idle_for_ever_sleeper : ∃ s,Delays.DelayRun sampleMachine s ∧ Idle s ∧
    ∃ l t,Later sampleMachine (Idling sampleMachine) s l t ∧ t.currentProcess≠t.idleProcess := by
  have hr : Delays.DelayRun sampleMachine (kernelStep sampleMachine (sampleEnv 0 0)
      (kernelStart sampleMachine sampleBoot) (.trap (sampleContext .kernel 7 5 0 0))) :=
    .step (sampleEnv 0 0) _ (.boot sampleBoot (by decide) sampleBoot_user) sampleBoot_user
      ⟨rfl,fun hf => absurd hf.2 (by decide)⟩
  have hp : ∃ s,s=kernelStep sampleMachine (sampleEnv 0 0) (kernelStart sampleMachine sampleBoot)
      (.trap (sampleContext .kernel 7 5 0 0)) ∧ decide (s.currentProcess=s.idleProcess ∧
        s.readyQueue=[] ∧ s.cpu=.kernel ∧ s.live 2=true ∧ s.delayUntil 2≠0 ∧ 0≤ s.pid 2 ∧
        s.pid 2<16)=true := ⟨_,rfl,by decide +kernel⟩
  obtain ⟨s,he,hs⟩ := hp
  obtain ⟨hi,hq,hk,hl,hd,h0,hlt⟩ := of_decide_eq_true hs
  rw [←he] at hr
  have hidle : Idle s := ⟨hi,hq,.inr hk⟩
  refine ⟨s,hr,hidle,?_⟩
  by_contra hnone
  have hst := (idle_for_ever hr hidle).1 (fun l t hlater => by
    by_contra hne
    exact hnone ⟨l,t,hlater,hne⟩)
  exact hst 2 .delay hl hd ⟨h0,hlt⟩

end Wakings

end Yalnix.Deadlocks

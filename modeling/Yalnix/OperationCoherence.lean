import Yalnix.CoherenceSteps
import Yalnix.Operations

/-!
# Every operation keeps the kernel coherent

The wake-up of a process is split into the loss of its reason and the link on
the ready queue, and a block into the saving of the kernel stack and the new
reason. Each operation is then a combination of these, one group of the
invariant at a time.
-/

namespace Yalnix.OperationCoherence

open Framework FrameTable KernelState Scheduling Ipc Terminals ProcessLifetime ProgramLoading
open Syscalls Traps KernelStart Coherence Operations

variable {M : Machine} {allow : Label → Prop} {s t : Kernel} {i : ℕ}

/-- A process stopped elsewhere than in TtyRead has no handed line. -/
theorem no_handed (h : Coherent M s)
    (hk : ∀ i,(s.kernelContext s.currentProcess).point≠.ttyRead i) :
    (s.tty s.currentProcess).readLine=none := by
  cases hl : (s.tty s.currentProcess).readLine with
  | none => rfl
  | some line =>
    obtain ⟨⟨i,hi⟩,_⟩ := h.reader.handed _ line h.ready.current_live hl
    exact absurd hi (hk i)

/-- An executing process has no handed line. -/
theorem no_line (h : Coherent M s) (ha : Active s) :
    (s.tty s.currentProcess).readLine=none :=
  no_handed h (by simp [ha.executing])

/-- A process that is not blocked has no reason. -/
theorem no_reason (h : Coherent M s) {p : PcbPtr} (hl : s.live p=true) (hb : s.state p≠.blocked)
    (r : Reason) : ¬BlockedBy s p r := h.block.reasons.none hl hb r

/-- A blocked process that has lost its reason is made ready. -/
theorem coherent_markReady (h : Coherent M s) {p : PcbPtr} (hl : s.live p=true)
    (hb : s.state p=.blocked) (hn : ∀ r,¬BlockedBy s p r)
    (hk : ∀ id g,(s.kernelContext p).point≠.acquire id g) : Coherent M (markReady s p) where
  ready := h.ready.markReady hl (h.ready.ne_idle (by rw [hb]; decide))
    (h.ready.unlinked (by rw [hb]; decide))
  block := h.block.setState (.inr (fun _ => hn))
  home := h.home
  owner := h.owner.setState (.inl (by decide))
  family := h.family.setState (.inl (by decide))
  table := h.table
  lock := h.lock.setState (.inl hk)
  saved := h.saved.setState (.inr (by rw [hb]; decide))
  reader := h.reader.setState (.inl ⟨by decide,by decide⟩)
  writer := h.writer

/-- The first process of a queue that is neither one of a lock nor one of
writers is unlinked. -/
theorem coherent_pop (h : Coherent M s) {q : QueueAddr} {w : PcbPtr} {rest : List PcbPtr}
    (hq : s.queue q=w::rest) (hl : ∀ i,.lockWaiters i≠q) (hw : ∀ i,.writeQueue i≠q) :
    Coherent M {s with
      queue := Function.update s.queue q rest
      blockQueue := Function.update s.blockQueue w none} where
  ready := h.ready
  block := h.block.pop hq
  home := h.home.pop hq
  owner := h.owner
  family := h.family
  table := h.table
  lock := h.lock.setQueue hl
  saved := h.saved
  reader := h.reader.subqueue (by rw [hq]; exact List.subset_cons_self ..)
  writer := h.writer.setQueue hw

/-- A process on a queue of another kind is no acquirer. -/
theorem not_acquire (h : Coherent M s) {q : QueueAddr} {w : PcbPtr} (hw : w∈s.queue q)
    (hq : ∀ i,.lockWaiters i≠q) (id : ℤ) (g : ℕ) : (s.kernelContext w).point≠.acquire id g := by
  intro hk
  obtain ⟨_,_,_,_,_,hb,_⟩ := h.lock.acquirer w id g (h.block.queue_live q w hw) hk
  have := h.block.only_queue hw (r := .queue _) (hb (h.block.blocked hw))
  injection this with this
  exact hq _ this

/-- The first process of such a queue is woken. -/
theorem coherent_wake (h : Coherent M s) {q : QueueAddr} {w : PcbPtr} {rest : List PcbPtr}
    (hq : s.queue q=w::rest) (hl : ∀ i,.lockWaiters i≠q) (hw : ∀ i,.writeQueue i≠q) :
    Coherent M (markReady {s with
      queue := Function.update s.queue q rest
      blockQueue := Function.update s.blockQueue w none} w) := by
  have hm : w∈s.queue q := by rw [hq]; exact List.mem_cons_self
  exact coherent_markReady (coherent_pop h hq hl hw) (h.block.queue_live q w hm)
    (h.block.blocked hm) (h.block.pop_free hq) (not_acquire h hm hl)

/-- The current process saves its kernel stack and is marked blocked. -/
theorem coherent_park (h : Coherent M s) (hb : MayBlock s) {k : KernelContext}
    (hl : ∀ id g,k.point≠.acquire id g) (he : k.point≠.executing) (hx : k.point≠.exited)
    (hp : PointOk M s.currentProcess k.point) : Coherent M {s with
      kernelContext := Function.update s.kernelContext s.currentProcess k
      state := Function.update s.state s.currentProcess .blocked} where
  ready := h.ready.setState hb.notIdle hb.unlinked
  block := h.block.setState (.inl rfl)
  home := h.home
  owner := h.owner.setState (.inl (by decide))
  family := h.family.setState (.inl (by decide))
  table := h.table
  lock := (h.lock.setSaved (fun _ => h.block.unqueued hb.toRunnable.not_blocked _) hl).setState
    (.inl (by rw [Function.update_self]; exact hl))
  saved := (h.saved.setState (.inr hb.toRunnable.not_zombie)).setSaved (fun hk => absurd hk he)
    (fun hk => absurd hk hx) hp (fun he => absurd he hb.notIdle)
  reader := (h.reader.setSaved
    (fun t => h.block.unqueued hb.toRunnable.not_blocked (.readQueue t))
    (no_line h hb.toActive)).setState (.inr (no_line h hb.toActive))
  writer := h.writer

/-- The current process starts to sleep. -/
theorem coherent_blockForDelay (h : Coherent M s) (hb : MayBlock s) {k : KernelContext}
    (hk : k.point=.delay) (n : ℕ) (u : UserContext) : Coherent M (blockForDelay n k u s) := by
  have hp := coherent_park h hb (k := k) (by simp [hk]) (by simp [hk]) (by simp [hk])
    (by rw [hk]; trivial)
  have hn := no_reason h h.ready.current_live hb.toRunnable.not_blocked
  refine {hp with
    block := BlockOk.grow (e := .delay) hp.block (Function.update_self ..) hn ?_
      h.block.writer_live}
  intro x r _ hr
  cases r with
  | delay =>
    by_cases he : x=s.currentProcess
    · exact .inr ⟨he,rfl⟩
    · rw [Waits,blockForDelay] at hr
      dsimp only at hr
      rw [Function.update_of_ne he] at hr
      exact .inl hr
  | child => exact .inl hr
  | queue q => exact .inl hr
  | writer t => exact .inl hr

/-- The current process starts to wait for a child. -/
theorem coherent_blockForChild (h : Coherent M s) (hb : MayBlock s) {k : KernelContext}
    {statusPtr : ℕ} (hk : k.point=.wait statusPtr) (u : UserContext) :
    Coherent M (blockForChild k u s) := by
  have hp := coherent_park h hb (k := k) (by simp [hk]) (by simp [hk]) (by simp [hk])
    (by rw [hk]; trivial)
  have hn := no_reason h h.ready.current_live hb.toRunnable.not_blocked
  refine {hp with
    block := BlockOk.grow (e := .child) hp.block (Function.update_self ..) hn ?_
      h.block.writer_live}
  intro x r _ hr
  cases r with
  | delay => exact .inl hr
  | child =>
    by_cases he : x=s.currentProcess
    · exact .inr ⟨he,rfl⟩
    · rw [Waits,blockForChild] at hr
      dsimp only at hr
      rw [Function.update_of_ne he] at hr
      exact .inl hr
  | queue q => exact .inl hr
  | writer t => exact .inl hr

/-- The current process joins a pipe or a condition variable. -/
theorem coherent_blockCurrent (h : Coherent M s) (hb : MayBlock s) {k : KernelContext}
    {q : QueueAddr} (hq : QueueHome M s.objects q) (hl : ∀ i,.lockWaiters i≠q)
    (hr : ∀ i,.readQueue i≠q) (hw : ∀ i,.writeQueue i≠q)
    (ha : ∀ id g,k.point≠.acquire id g) (he : k.point≠.executing) (hx : k.point≠.exited)
    (hk : PointOk M s.currentProcess k.point) (u : UserContext) :
    Coherent M (blockCurrent q k u s) := by
  have hp := coherent_park h hb ha he hx hk
  have hn := no_reason h h.ready.current_live hb.toRunnable.not_blocked
  exact {hp with
    block := hp.block.push h.ready.current_live (Function.update_self ..) hn
    home := hp.home.setQueue hq
    lock := hp.lock.setQueue hl
    reader := hp.reader.setQueue hr
    writer := hp.writer.setQueue hw}

/-- The current process joins the readers of a terminal. -/
theorem coherent_blockRead (h : Coherent M s) (hb : MayBlock s) {k : KernelContext} {i : ℕ}
    (ht : i<M.numTerminals) (hk : k.point=.ttyRead i) (u : UserContext) :
    Coherent M (blockCurrent (.readQueue i) k u s) := by
  have hp := coherent_park h hb (k := k) (by simp [hk]) (by simp [hk]) (by simp [hk])
    (by rw [hk]; exact ht)
  have hn := no_reason h h.ready.current_live hb.toRunnable.not_blocked
  refine {hp with
    block := hp.block.push h.ready.current_live (Function.update_self ..) hn
    home := hp.home.setQueue ht
    lock := hp.lock.setQueue (by simp)
    reader := ⟨?_,hp.reader.handed⟩
    writer := hp.writer.setQueue (by simp)}
  intro j x hx
  by_cases hj : j=i
  · subst hj
    simp only [blockCurrent,Function.update_self,List.mem_append,List.mem_singleton] at hx
    rcases hx with hx|rfl
    · exact hp.reader.reading j x hx
    · simpa [blockCurrent] using hk
  · simp only [blockCurrent] at hx
    rw [Function.update_of_ne (by simpa using hj)] at hx
    exact hp.reader.reading j x hx

/-- An identifier that denotes something is inside the table. -/
theorem getObject_bounds {id : ℤ} (h : getObject s id≠.free) :
    0≤ id ∧ id<IPC_MAX_OBJECTS ∧ getObject s id=s.objects id.toNat := by
  unfold getObject at h ⊢
  split at h
  · exact absurd rfl h
  · rename_i hn
    rw [if_neg hn]
    exact ⟨by omega,by omega,rfl⟩

/-- The current process joins the waiters of an owned lock. -/
theorem coherent_blockOnLock (h : Coherent M s) (hb : MayBlock s) {k : KernelContext} {id : ℤ}
    {l : LockState} (hk : k.point=.acquire id l.opened) (ho : getObject s id=.lock l)
    (hl : l.owner≠0) (u : UserContext) : Coherent M (blockOnLock id.toNat l k u s) := by
  obtain ⟨h0,hlt,hg⟩ := getObject_bounds (show getObject s id≠.free by rw [ho]; simp)
  rw [ho] at hg
  have hn := no_reason h h.ready.current_live hb.toRunnable.not_blocked
  exact {
    ready := h.ready.setState hb.notIdle hb.unlinked
    block := (h.block.setState (.inl rfl)).push h.ready.current_live (Function.update_self ..) hn
    home := h.home.setQueue ⟨l,hg.symm⟩
    owner := h.owner.setState (.inl (by decide))
    family := h.family.setState (.inl (by decide))
    table := h.table
    lock := h.lock.block hb.executing hk h0 hlt hg.symm hl
    saved := (h.saved.setState (.inr hb.toRunnable.not_zombie)).setSaved (by simp [hk])
      (by simp [hk]) (by rw [hk]; trivial) (fun he => absurd he hb.notIdle)
    reader := ((h.reader.setSaved
      (fun t => h.block.unqueued hb.toRunnable.not_blocked (.readQueue t))
      (no_line h hb.toActive)).setState (.inr (no_line h hb.toActive))).setQueue (by simp)
    writer := h.writer.setQueue (by simp)}

/-- A transmission leaves the lines alone. -/
@[simp]
theorem ttyTransmit_readLine (i : ℕ) (x : PcbPtr) :
    ((ttyTransmit M i s).tty x).readLine=(s.tty x).readLine := by
  by_cases he : x=(s.terminals i).writer
  · subst he
    simp [ttyTransmit]
  · simp [ttyTransmit,Function.update_of_ne he]

/-- A prepared write leaves the lines alone. -/
@[simp]
theorem prepareWrite_readLine (env : Env) (k : KernelContext) (i buf : ℕ) (len : ℤ)
    (u : UserContext) (x : PcbPtr) :
    ((prepareWrite env k i buf len u s).tty x).readLine=(s.tty x).readLine := by
  by_cases he : x=s.currentProcess
  · subst he
    simp [prepareWrite]
  · simp [prepareWrite,Function.update_of_ne he]

/-- The current process becomes the writer of an idle terminal. -/
theorem coherent_startWrite (h : Coherent M s) (hb : MayBlock s) {k : KernelContext} {i buf : ℕ}
    {len : ℤ} (hk : k.point=.ttyWrite i len) (hw : (s.terminals i).writer=0) (env : Env)
    (u : UserContext) :
    Coherent M (ttyTransmit M i (becomeWriter i (prepareWrite env k i buf len u s))) := by
  have hp := coherent_park h hb (k := k) (by simp [hk]) (by simp [hk]) (by simp [hk])
    (by rw [hk]; trivial)
  have hn := no_reason h h.ready.current_live hb.toRunnable.not_blocked
  have hq : s.queue (.writeQueue i)=[] := by
    by_contra hne
    exact h.writer.queued i hne hw
  have h0 := h.ready.ne_null h.ready.current_live
  have hu : ∀ j,s.currentProcess∉s.queue (.writeQueue j) :=
    fun j => h.block.unqueued hb.toRunnable.not_blocked _
  refine {hp with
    block := BlockOk.grow (e := .writer i) hp.block (Function.update_self ..) hn ?_ ?_
    reader := hp.reader.keepLines (fun x => by
      rw [ttyTransmit_readLine]
      exact prepareWrite_readLine env k i buf len u x)
    writer := ?_}
  · intro x r _ hr
    cases r with
    | delay => exact .inl hr
    | child => exact .inl hr
    | queue q => exact .inl hr
    | writer j =>
      by_cases hj : j=i
      · subst hj
        simp [Waits,ttyTransmit,becomeWriter,prepareWrite] at hr
        exact .inr ⟨hr.symm,rfl⟩
      · simp [Waits,ttyTransmit,becomeWriter,prepareWrite,Function.update_of_ne hj] at hr
        exact .inl hr
  · intro j hj
    by_cases he : j=i
    · subst he
      simpa [ttyTransmit,becomeWriter,prepareWrite] using h.ready.current_live
    · simp only [ttyTransmit,becomeWriter,prepareWrite,Function.update_of_ne he] at hj ⊢
      exact h.block.writer_live j hj
  · have hz := (h.writer.setTerminal (t := i)
      (v := {s.terminals i with writer := s.currentProcess, busy := true})
      (by simpa using h0) (fun hne => absurd hq hne)).setTty (p := s.currentProcess)
      (r := (ttyTransmit M i (becomeWriter i (prepareWrite env k i buf len u s))).tty
        s.currentProcess) (.inl hu)
    simpa [ttyTransmit,becomeWriter,prepareWrite] using hz

/-- The current process queues behind the writer of a terminal. -/
theorem coherent_queueWrite (h : Coherent M s) (hb : MayBlock s) {k : KernelContext} {i buf : ℕ}
    {len : ℤ} (hk : k.point=.ttyWrite i len) (ht : i<M.numTerminals) (hl : 0<len)
    (hw : (s.terminals i).writer≠0) (env : Env) (u : UserContext) :
    Coherent M (queueWriter i (prepareWrite env k i buf len u s)) := by
  have hp := coherent_park h hb (k := k) (by simp [hk]) (by simp [hk]) (by simp [hk])
    (by rw [hk]; trivial)
  have hn := no_reason h h.ready.current_live hb.toRunnable.not_blocked
  refine {hp with
    block := hp.block.push h.ready.current_live (Function.update_self ..) hn
    home := hp.home.setQueue ht
    lock := hp.lock.setQueue (by simp)
    reader := (hp.reader.keepLines (prepareWrite_readLine env k i buf len u)).setQueue (by simp)
    writer := (h.writer.setTty (.inr (by simpa using hl))).setWriteQueue (fun _ => hw) ?_}
  intro x hx
  simp only [prepareWrite,List.mem_append,List.mem_singleton] at hx
  by_cases he : x=s.currentProcess
  · subst he
    rw [Function.update_self]
    simpa using hl
  · rw [Function.update_of_ne he]
    exact h.writer.pending i x (hx.resolve_right he)

/-- A sleeper whose delay is over is woken. -/
theorem coherent_sleepOver (h : Coherent M s) {p : PcbPtr} (hl : s.live p=true)
    (ho : DelayOver s p) : Coherent M (markReady {s with
      delayUntil := Function.update s.delayUntil p 0
      log := s.log++[.woken p (.delay (s.delayUntil p) s.clockTicks)]} p) := by
  obtain ⟨_,hb,hd,_⟩ := ho
  have hu : ∀ {r},BlockedBy s p r → r=.delay :=
    fun {r} hr => h.block.reasons.unique p r .delay hl hr hd
  have hc : Coherent M {s with
      delayUntil := Function.update s.delayUntil p 0
      log := s.log++[.woken p (.delay (s.delayUntil p) s.clockTicks)]} := by
    refine ⟨h.ready,h.block.shrink ?_ (fun _ hw => hw) (fun _ _ => rfl) h.ready.null,
      h.home,h.owner,h.family,h.table,h.lock,h.saved,h.reader,h.writer⟩
    intro x hx
    by_cases he : x=p
    · subst he
      exact hd
    · dsimp only at hx
      rwa [Function.update_of_ne he] at hx
  refine coherent_markReady hc hl hb ?_ ?_
  · intro r hr
    cases r with
    | delay => exact hr (Function.update_self ..)
    | child => cases hu (r := .child) hr
    | queue q => cases hu (r := .queue q) hr
    | writer i => cases hu (r := .writer i) hr
  · intro id g hk
    obtain ⟨_,_,_,_,_,hq,_⟩ := h.lock.acquirer p id g hl hk
    cases hu (r := .queue _) (hq hb)

/-- The running process is linked on the ready queue. -/
theorem coherent_requeue (h : Coherent M s) (hi : s.currentProcess≠s.idleProcess)
    (hs : s.state s.currentProcess=.running) : Coherent M (markReady s s.currentProcess) where
  ready := h.ready.markReady h.ready.current_live hi (h.ready.unlinked (by rw [hs]; decide))
  block := h.block.setState
    (.inr (fun _ => no_reason h h.ready.current_live (by rw [hs]; decide)))
  home := h.home
  owner := h.owner.setState (.inl (by decide))
  family := h.family.setState (.inl (by decide))
  table := h.table
  lock := h.lock.setState (.inr ⟨by rw [hs]; decide,by decide⟩)
  saved := h.saved.setState (.inr (by rw [hs]; decide))
  reader := h.reader.setState (.inl ⟨by decide,by decide⟩)
  writer := h.writer

/-- A process that is ready or running becomes the running one. -/
theorem coherent_switch (h : Coherent M s) {p : PcbPtr} {l : List PcbPtr} {m : Memory}
    (hl : s.live p=true) (hs : s.state p=.ready ∨ s.state p=.running)
    (hk : (s.kernelContext s.currentProcess).point≠.executing)
    (hr : ReadyOk s.live (Function.update s.state p .running) s.idleProcess p l) :
    Coherent M {s with
      state := Function.update s.state p .running
      readyQueue := l
      currentProcess := p
      memory := m} := by
  have hb : s.state p≠.blocked := by rcases hs with hs|hs <;> rw [hs] <;> decide
  have hz : s.state p≠.zombie := by rcases hs with hs|hs <;> rw [hs] <;> decide
  exact {
    ready := hr
    block := h.block.setState (.inr (fun _ => no_reason h hl hb))
    home := h.home
    owner := h.owner.setState (.inl (by decide))
    family := h.family.setState (.inl (by decide))
    table := h.table
    lock := h.lock.setState (.inr ⟨hb,by decide⟩)
    saved := (h.saved.setState (.inr hz)).setCurrent hk
    reader := h.reader.setState (.inl ⟨by decide,by decide⟩)
    writer := h.writer}

/-- The head of the ready queue or idle, in a coherent state. -/
theorem nextProcess_cases (h : Coherent M s) :
    (s.readyQueue=[] ∧ nextProcess s=s.idleProcess) ∨
      ∃ rest,s.readyQueue=nextProcess s::rest := by
  unfold nextProcess
  cases hr : s.readyQueue with
  | nil => exact .inl ⟨rfl,rfl⟩
  | cons p rest =>
    have hl := (h.ready.mem p (by rw [hr]; simp)).1
    exact .inr ⟨rest,by simp [h.ready.ne_null hl]⟩

/-- Region 0 behind the scheduler: the kernel stack of the process that it has
switched to is installed. -/
def switchedRegion0 (M : Machine) (s : Kernel) : PageTable :=
  if nextProcess s=s.currentProcess then s.memory.kernelRegion0Pt
  else installKernelStack M (s.space (nextProcess s)).kernelStackPfns
    (List.range M.kernelStackPages) s.memory.kernelRegion0Pt

/-- What the scheduler changes when it picks and switches. -/
theorem dispatchNext_eq (h : Coherent M s) {env : Env} (hs : env.switchOk=true) :
    dispatchNext M env s={s with
      state := if nextProcess s=s.currentProcess then s.state
        else Function.update s.state (nextProcess s) .running
      currentProcess := nextProcess s
      readyQueue := s.readyQueue.tail
      memory := {s.memory with kernelRegion0Pt := switchedRegion0 M s}
      cpu := .kernel
      log := s.log++[.dispatched s.currentProcess (nextProcess s) (s.state (nextProcess s))
        s.readyQueue]} := by
  have h0 : nextProcess s≠0 := by
    rcases nextProcess_cases h with ⟨_,hn⟩|⟨rest,hr⟩
    · rw [hn]
      exact h.ready.ne_null h.ready.idle_live
    · exact h.ready.ne_null (h.ready.mem _ (by rw [hr]; simp)).1
  unfold dispatchNext processSwitch switchedRegion0
  by_cases he : nextProcess s=s.currentProcess
  · rw [if_pos (.inr he),if_pos he,if_pos he,he]
  · rw [if_neg (by simpa [h0] using he),if_pos hs,if_neg he,if_neg he]
    rfl

/-- The scheduler picks and switches. -/
theorem coherent_dispatchNext (h : Coherent M s) (env : Env) (hs : env.switchOk=true)
    (hk : (s.kernelContext s.currentProcess).point≠.executing) :
    Coherent M (dispatchNext M env s) := by
  rcases nextProcess_cases h with ⟨hr,hn⟩|⟨rest,hr⟩
  · have h0 := h.ready.ne_null h.ready.idle_live
    unfold dispatchNext processSwitch
    by_cases he : s.idleProcess=s.currentProcess
    · rw [hn,if_pos (.inr he)]
      refine ⟨?_,h.block,h.home,h.owner,h.family,h.table,h.lock,h.saved,h.reader,h.writer⟩
      simpa [hr] using h.ready
    · rw [hn,if_neg (by simpa [h0] using he),if_pos hs]
      have hu : Function.update s.state s.idleProcess .running=s.state := by
        rw [Function.update_eq_self_iff]
        exact h.ready.idle_running.symm
      have hc := coherent_switch (m := (kcSwitch M s.idleProcess s).memory) (l := [])
        h h.ready.idle_live (.inr h.ready.idle_running) hk
        (by rw [hu]; exact (hr ▸ h.ready).setCurrent h.ready.idle_live)
      rw [hr]
      exact ⟨hc.ready,hc.block,hc.home,hc.owner,hc.family,hc.table,hc.lock,hc.saved,hc.reader,
        hc.writer⟩
  · have hm := h.ready.mem (nextProcess s) (by rw [hr]; simp)
    have h0 := h.ready.ne_null hm.1
    have hro := h.ready
    rw [hr] at hro
    unfold dispatchNext processSwitch
    by_cases he : nextProcess s=s.currentProcess
    · rw [if_pos (.inr he)]
      refine ⟨?_,h.block,h.home,h.owner,h.family,h.table,h.lock,h.saved,h.reader,h.writer⟩
      rw [hr]
      exact hro.tail
    · rw [if_neg (by simpa [h0] using he),if_pos hs]
      have hc := coherent_switch (m := (kcSwitch M (nextProcess s) s).memory) (l := rest)
        h hm.1 (.inl hm.2.2) hk hro.pick
      rw [hr]
      exact ⟨hc.ready,hc.block,hc.home,hc.owner,hc.family,hc.table,hc.lock,hc.saved,hc.reader,
        hc.writer⟩

/-- Orphaning the first child of the current process. -/
theorem coherent_orphan (h : Coherent M s) {c : PcbPtr} {rest : List PcbPtr}
    (hc : s.children s.currentProcess=c::rest) : Coherent M {s with
      children := Function.update s.children s.currentProcess rest
      parent := Function.update s.parent c 0} :=
  ⟨h.ready,h.block,h.home,h.owner,h.family.orphan h.ready.current_live hc,h.table,h.lock,h.saved,
    h.reader,h.writer⟩

/-- Destroying a childless process that is on no queue. -/
theorem processDestroy_eq {c p : PcbPtr} (h0 : c≠0) (hp : s.parent c=p) (hp0 : p≠0) (hcp : c≠p)
    (hn : s.children c=[]) (hr : c∉s.readyQueue)
    (hq : ∀ q,s.blockQueue c=some q → c∉s.queue q) :
    processDestroy M c s=releaseProcess M c {s with
      children := Function.update s.children p ((s.children p).erase c)} := by
  have h₁ : leaveParent c s={s with
      children := Function.update s.children p ((s.children p).erase c)} := by
    unfold leaveParent
    rw [hp,if_pos hp0]
  have h₂ : (Function.update s.children p ((s.children p).erase c)) c=[] := by
    rw [Function.update_of_ne hcp]
    exact hn
  unfold processDestroy
  rw [if_neg h0,h₁]
  dsimp only
  rw [h₂]
  unfold orphanChildren leaveReady leaveBlockQueue
  rw [List.erase_of_not_mem hr]
  cases hb : s.blockQueue c with
  | none => rfl
  | some q =>
    dsimp only
    rw [if_neg (hq q hb)]

/-- Collecting a zombie child unlinks and frees it. -/
theorem collectChild_eq (h : Coherent M s) (ha : Active s) (statusPtr : ℕ) {c : PcbPtr}
    (hc : c∈s.children s.currentProcess) (hz : s.state c=.zombie) :
    collectChild M statusPtr c s=releaseProcess M c {s with
      children := Function.update s.children s.currentProcess
        ((s.children s.currentProcess).erase c)
      log := s.log++(if statusPtr=0 then [] else [.stored s.currentProcess statusPtr 4])++
        [.waited (s.birth s.currentProcess) (s.birth c) (s.pid c) (s.exitStatus c)]} := by
  obtain ⟨hl,hp⟩ := h.family.child_parent _ c h.ready.current_live hc
  unfold collectChild
  refine processDestroy_eq (h.ready.ne_null hl) hp (h.ready.ne_null h.ready.current_live) ?_
    (h.family.zombie c hl hz) (h.ready.unlinked (by rw [hz]; decide))
    (fun q _ => h.block.unqueued (by rw [hz]; decide) q)
  rintro rfl
  exact ha.toRunnable.not_zombie hz

/-- A zombie child is collected. -/
theorem coherent_collectChild (h : Coherent M s) (ha : Active s) (statusPtr : ℕ) {c : PcbPtr}
    (hc : c∈s.children s.currentProcess) (hz : s.state c=.zombie) :
    Coherent M (collectChild M statusPtr c s) := by
  obtain ⟨hl,_⟩ := h.family.child_parent _ c h.ready.current_live hc
  have hne : c≠s.currentProcess := by
    rintro rfl
    exact ha.toRunnable.not_zombie hz
  rw [collectChild_eq h ha statusPtr hc hz]
  exact {
    ready := h.ready.death (h.ready.ne_idle (by rw [hz]; decide)) hne
      (h.ready.unlinked (by rw [hz]; decide))
    block := h.block.death (no_reason h hl (by rw [hz]; decide))
    home := h.home
    owner := h.owner.death hz
    family := h.family.death h.ready.current_live hc (h.family.zombie c hl hz)
    table := h.table.death
    lock := h.lock.death
    saved := h.saved.death
    reader := h.reader.death
    writer := h.writer}

/-- A fresh block is not in use. -/
theorem callocPcb_fresh {env : Env} {c : PcbPtr} (hc : callocPcb env s=some c) :
    c≠0 ∧ s.live c=false := by
  unfold callocPcb at hc
  split at hc
  · rename_i hn
    injection hc with hc
    subst hc
    exact hn.2
  · cases hc

/-- A block that is not in use is on no queue. -/
theorem dead_unqueued (h : Coherent M s) {c : PcbPtr} (hc : s.live c=false) (q : QueueAddr) :
    c∉s.queue q := by
  intro hm
  rw [h.block.queue_live q c hm] at hc
  cases hc

/-- A block that is not in use is not ready. -/
theorem dead_unlinked (h : Coherent M s) {c : PcbPtr} (hc : s.live c=false) :
    c∉s.readyQueue := by
  intro hm
  rw [(h.ready.mem c hm).1] at hc
  cases hc

/-- A block that is not in use is not the current process. -/
theorem dead_ne_current (h : Coherent M s) {c : PcbPtr} (hc : s.live c=false) :
    c≠s.currentProcess := by
  rintro rfl
  rw [h.ready.current_live] at hc
  cases hc

/-- Destroying a child that has just been entered. -/
theorem destroyed_child (h : Coherent M s) {c : PcbPtr} (h0 : c≠0) (hc : s.live c=false) {n : ℤ}
    {pfns : ℕ → ℕ} {pt : PageTable} {m : Memory} {u : UserContext} :
    processDestroy M c ((enterChild M s.currentProcess c n pfns pt m s).setUserContext c u)=
      releaseProcess M c {(enterChild M s.currentProcess c n pfns pt m s).setUserContext c u with
        children := Function.update
          ((enterChild M s.currentProcess c n pfns pt m s).setUserContext c u).children
          s.currentProcess
          ((((enterChild M s.currentProcess c n pfns pt m s).setUserContext c u).children
            s.currentProcess).erase c)} := by
  have hne := dead_ne_current h hc
  refine processDestroy_eq h0 (Function.update_self ..) (h.ready.ne_null h.ready.current_live) hne
    ?_ (dead_unlinked h hc) (fun q _ => dead_unqueued h hc q)
  simp [Kernel.setUserContext,enterChild,Function.update_of_ne hne]

/-- A fork whose child is destroyed again. -/
theorem coherent_forkUndone (h : Coherent M s) (ha : Active s) {c : PcbPtr} (h0 : c≠0)
    (hc : s.live c=false) (n : ℤ) (pfns : ℕ → ℕ) (pt : PageTable) (m : Memory) (u : UserContext) :
    Coherent M (processDestroy M c
      ((enterChild M s.currentProcess c n pfns pt m s).setUserContext c u)) := by
  have hne := dead_ne_current h hc
  have hcl := h.ready.current_live
  have hlive : Function.update (Function.update s.live c true) c false=s.live := by
    rw [Function.update_idem,Function.update_eq_self_iff]
    exact hc.symm
  rw [destroyed_child h h0 hc]
  have hb := h.block.birth (a := .ready) hc h0
  have hx : ∀ r,¬Waits (Function.update s.delayUntil c 0)
    (Function.update s.waitingForChild c false)
      s.queue s.terminals c r := by
    refine hb.reasons.none (Function.update_self ..) ?_
    rw [Function.update_self]
    decide
  have hi : c≠s.idleProcess := by
    rintro rfl
    rw [h.ready.idle_live] at hc
    cases hc
  have ho : OwnerOk (Function.update (Function.update s.live c true) c false)
      (Function.update s.state c .ready) s.idleProcess s.objects := by
    rw [hlive]
    exact h.owner.setState (.inl (by decide))
  have hsv : SavedOk M (Function.update (Function.update s.live c true) c false)
      (Function.update s.state c .ready) (Function.update s.kernelContext c
        (s.kernelContext s.currentProcess)) s.idleProcess s.currentProcess := by
    rw [hlive]
    exact h.saved.dead hc hi
  exact {
    ready := (h.ready.birth hc h0).death hi hne (dead_unlinked h hc)
    block := hb.death hx
    home := h.home
    owner := ho
    family := (h.family.birth hcl hc ha.toRunnable.not_zombie (by decide)).death
      (by rw [Function.update_of_ne hne.symm]; exact hcl) (by simp)
      (by rw [Function.update_of_ne hne,Function.update_self])
    table := (h.table.birth hc).death
    lock := (h.lock.birth (fun j => dead_unqueued h hc _) ha.not_acquire).death
    saved := hsv
    reader := (h.reader.birth (fun j => dead_unqueued h hc _) rfl).death
    writer := h.writer.setTty (.inl (fun j => dead_unqueued h hc _))}

/-- A successful fork enters the child and links it. -/
theorem spawn_eq (c : PcbPtr) (n : ℤ) (pfns : ℕ → ℕ) (pt : PageTable) (m : Memory)
    (u : UserContext) (caller : PcbPtr) (e : Event) :
    markReady ((kcCopy M c ⟨caller,.fork c⟩
      ((enterChild M s.currentProcess c n pfns pt m s).setUserContext c u)).emit e) c=
      {enterChild M s.currentProcess c n pfns pt m s with
        userContext :=
          Function.update (enterChild M s.currentProcess c n pfns pt m s).userContext c u
        kernelContext := Function.update s.kernelContext c ⟨caller,.fork c⟩
        memory := (kcCopy M c ⟨caller,.fork c⟩
          (enterChild M s.currentProcess c n pfns pt m s)).memory
        readyQueue := s.readyQueue++[c]
        log := s.log++[e]++[.linked c]} := by
  simp only [markReady,kcCopy,Kernel.emit,Kernel.setUserContext,enterChild,Function.update_idem]

/-- A successful fork keeps the kernel coherent. -/
theorem coherent_spawn (h : Coherent M s) (hb : MayBlock s) {c : PcbPtr} (h0 : c≠0)
    (hc : s.live c=false) (n : ℤ) (pfns : ℕ → ℕ) (pt : PageTable) (m : Memory) (u : UserContext)
    (caller : PcbPtr) (e : Event) :
    Coherent M (markReady ((kcCopy M c ⟨caller,.fork c⟩
      ((enterChild M s.currentProcess c n pfns pt m s).setUserContext c u)).emit e) c) := by
  have hcl := h.ready.current_live
  have hi : c≠s.idleProcess := by
    rintro rfl
    rw [h.ready.idle_live] at hc
    cases hc
  have hr := (h.ready.birth (a := .ready) hc h0).markReady (Function.update_self ..) hi
    (dead_unlinked h hc)
  rw [Function.update_idem] at hr
  rw [spawn_eq]
  exact {
    ready := hr
    block := h.block.birth hc h0
    home := h.home
    owner := h.owner.birth hc
    family := h.family.birth hcl hc hb.toRunnable.not_zombie (by decide)
    table := h.table.birth hc
    lock := h.lock.birth (fun j => dead_unqueued h hc _) (by simp)
    saved := h.saved.birth hi (by simp) (by simp) rfl
    reader := h.reader.birth (fun j => dead_unqueued h hc _) rfl
    writer := h.writer.setTty (.inl (fun j => dead_unqueued h hc _))}

/-- The current process saves another point without blocking. -/
theorem coherent_setSaved (h : Coherent M s) (hr : Runnable s) {k : KernelContext}
    (hl : (s.tty s.currentProcess).readLine=none)
    (hk : k.point=.executing ∨ k.point=.clock) :
    Coherent M (s.setKernelContext s.currentProcess k) where
  ready := h.ready
  block := h.block
  home := h.home
  owner := h.owner
  family := h.family
  table := h.table
  lock := h.lock.setSaved (fun _ => h.block.unqueued hr.not_blocked _)
    (fun id g => by rcases hk with hk|hk <;> simp [hk])
  saved := h.saved.setSaved (fun _ => rfl) (fun hx => by rcases hk with hk|hk <;> simp [hk] at hx)
    (by rcases hk with hk|hk <;> rw [hk] <;> trivial) (fun _ => hk.imp_right .inr)
  reader := h.reader.setSaved (fun _ => h.block.unqueued hr.not_blocked _) hl
  writer := h.writer

/-- A free lock is taken by the current process or an owned one without
waiters is given up. -/
theorem coherent_setOwner (h : Coherent M s) {i : ℕ} {l : LockState} {p : PcbPtr}
    (ho : s.objects i=.lock l) (hq : s.queue (.lockWaiters i)=[])
    (ha : s.live l.owner=true → ∀ id g,(s.kernelContext l.owner).point≠.acquire id g)
    (hp : p≠0 → s.live p=true ∧ p≠s.idleProcess ∧ s.state p≠.zombie) :
    Coherent M {s with objects := Function.update s.objects i (.lock {l with owner := p})} where
  ready := h.ready
  block := h.block
  home := h.home.setObject (fun hne => absurd (h.home.no_readers (by simp [ho])) hne)
    (fun _ => ⟨_,rfl⟩) (fun hne => absurd (h.home.no_cvarWaiters (by simp [ho])) hne)
  owner := by
    refine h.owner.setObject (h.owner.lt (by rw [ho]; simp)) ?_
    rintro lock hl hne
    injection hl with hl
    subst hl
    exact hp hne
  family := h.family
  table := h.table
  lock := h.lock.setObject (h.lock.only_owner ho hq ha) hq
  saved := h.saved
  reader := h.reader
  writer := h.writer

/-- An owned lock is handed to its first waiter. -/
theorem coherent_handOff (h : Coherent M s) (ha : Active s) {i : ℕ} {l : LockState} {w : PcbPtr}
    {rest : List PcbPtr} (u : UserContext) (ho : s.objects i=.lock l)
    (hc : l.owner=s.currentProcess) (hq : s.queue (.lockWaiters i)=w::rest) :
    Coherent M (grantLock i l w (markReady {clearOwner i l s with
        queue := Function.update s.queue (.lockWaiters i) rest
        blockQueue := Function.update s.blockQueue w none
        userContext := Function.update s.userContext w u
        log := s.log++[.lockReleased l.opened l.owner,.woken w (.pop (.lockWaiters i))]} w)) := by
  have hm : w∈s.queue (.lockWaiters i) := by rw [hq]; exact List.mem_cons_self
  have hl := h.block.queue_live _ w hm
  have hb := h.block.blocked hm
  have hi := h.ready.ne_idle (p := w) (by rw [hb]; decide)
  have hobj : Function.update (Function.update s.objects i (.lock {l with owner := 0})) i
      (.lock {l with owner := w})=Function.update s.objects i (.lock {l with owner := w}) :=
    Function.update_idem ..
  have hown := (h.owner.setState (p := w) (a := .ready) (.inl (by decide))).setObject
    (o := .lock {l with owner := w}) (h.owner.lt (by rw [ho]; simp)) (by
      rintro lock he _
      injection he with he
      subst he
      exact ⟨hl,hi,by simp⟩)
  have hlock := h.lock.handOff ho hq (by rw [hc]; exact ha.not_acquire) (h.ready.ne_null hl)
  have hhome := (h.home.pop (l := rest) hq).setObject (i := i) (o := .lock {l with owner := w})
    (by
      rw [Function.update_of_ne (by simp)]
      exact fun hne => absurd (h.home.no_readers (by simp [ho])) hne)
    (fun _ => ⟨_,rfl⟩)
    (by
      rw [Function.update_of_ne (by simp)]
      exact fun hne => absurd (h.home.no_cvarWaiters (by simp [ho])) hne)
  rw [← hobj] at hown hlock hhome
  exact {
    ready := h.ready.markReady hl hi (h.ready.unlinked (by rw [hb]; decide))
    block := (h.block.pop hq).setState (.inr (fun _ => h.block.pop_free hq))
    home := hhome
    owner := hown
    family := h.family.setState (.inl (by decide))
    table := h.table
    lock := hlock
    saved := h.saved.setState (.inr (by rw [hb]; decide))
    reader := (h.reader.setState (.inl ⟨by decide,by decide⟩)).setQueue (by simp)
    writer := h.writer.setQueue (by simp)}

/-- A process without children and locks may end. -/
theorem coherent_zombie (h : Coherent M s) (hb : MayBlock s) {k : KernelContext}
    (hk : k.point=.exited) (hc : s.children s.currentProcess=[])
    (ho : ∀ i l,s.objects i=.lock l → l.owner≠s.currentProcess) : Coherent M {s with
      state := Function.update s.state s.currentProcess .zombie
      kernelContext := Function.update s.kernelContext s.currentProcess k} where
  ready := h.ready.setState hb.notIdle hb.unlinked
  block := h.block.setState
    (.inr (fun _ => no_reason h h.ready.current_live hb.toRunnable.not_blocked))
  home := h.home
  owner := h.owner.setState (.inr ho)
  family := h.family.setState (.inr hc)
  table := h.table
  lock := (h.lock.setSaved (fun _ => h.block.unqueued hb.toRunnable.not_blocked _)
    (by simp [hk])).setState
    (.inl (by rw [Function.update_self]; simp [hk]))
  saved := (h.saved.setState (.inl rfl)).setSaved (by simp [hk])
    (fun _ => Function.update_self ..) (by rw [hk]; trivial) (fun he => absurd he hb.notIdle)
  reader := (h.reader.setSaved
    (fun t => h.block.unqueued hb.toRunnable.not_blocked (.readQueue t))
    (no_line h hb.toActive)).setState (.inr (no_line h hb.toActive))
  writer := h.writer

/-- A parent that waits for a child is woken. -/
theorem coherent_wakeParent (h : Coherent M s) {p : PcbPtr} (hl : s.live p=true)
    (hw : s.waitingForChild p=true) : Coherent M (markReady {s with
      waitingForChild := Function.update s.waitingForChild p false} p) := by
  have hb := h.block.reasons.blocked p .child hl hw
  have hu : ∀ {r},BlockedBy s p r → r=.child :=
    fun {r} hr => h.block.reasons.unique p r .child hl hr hw
  have hc : Coherent M {s with
      waitingForChild := Function.update s.waitingForChild p false} := by
    refine ⟨h.ready,h.block.shrink (fun _ hd => hd) ?_ (fun _ _ => rfl) h.ready.null,
      h.home,h.owner,h.family,h.table,h.lock,h.saved,h.reader,h.writer⟩
    intro x hx
    by_cases he : x=p
    · subst he
      exact hw
    · dsimp only at hx
      rwa [Function.update_of_ne he] at hx
  refine coherent_markReady hc hl hb ?_ ?_
  · intro r hr
    cases r with
    | delay => cases hu (r := .delay) hr
    | child =>
      rw [BlockedBy,Waits] at hr
      dsimp only at hr
      rw [Function.update_self] at hr
      cases hr
    | queue q => cases hu (r := .queue q) hr
    | writer i => cases hu (r := .writer i) hr
  · intro id g hk
    obtain ⟨_,_,_,_,_,hq,_⟩ := h.lock.acquirer p id g hl hk
    cases hu (r := .queue _) (hq hb)

/-- A free entry becomes an object with an empty queue. -/
theorem coherent_open (h : Coherent M s) {i : ℕ} {o : IpcObject} {q : QueueAddr}
    (hi : i<IPC_MAX_OBJECTS) (hf : s.objects i=.free) (ho : ∀ l,o=.lock l → l.owner=0)
    (hq : q=.readers i ∨ q=.lockWaiters i ∨ q=.cvarWaiters i) : Coherent M {s with
      objects := Function.update s.objects i o
      queue := Function.update s.queue q []} := by
  have hr := h.home.no_readers (i := i) (by simp [hf])
  have hl := h.home.no_lockWaiters (i := i) (by simp [hf])
  have hc := h.home.no_cvarWaiters (i := i) (by simp [hf])
  have hs : Function.update s.queue q []=s.queue := by
    rw [Function.update_eq_self_iff]
    rcases hq with rfl|rfl|rfl
    · exact hr.symm
    · exact hl.symm
    · exact hc.symm
  rw [hs]
  exact ⟨h.ready,h.block,h.home.setObject (fun hne => absurd hr hne) (fun hne => absurd hl hne)
    (fun hne => absurd hc hne),h.owner.setObject hi (fun l he hne => absurd (ho l he) hne),
    h.family,h.table,h.lock.setObject (h.lock.no_acquirer (by simp [hf])) hl,h.saved,h.reader,
    h.writer⟩

/-- A pipe gets other contents. -/
theorem coherent_setPipe (h : Coherent M s) {i : ℕ} {pipe : PipeState} (pipe' : PipeState)
    (ho : s.objects i=.pipe pipe) :
    Coherent M {s with objects := Function.update s.objects i (.pipe pipe')} :=
  ⟨h.ready,h.block,h.home.setObject (fun _ => ⟨_,rfl⟩)
    (fun hne => absurd (h.home.no_lockWaiters (by simp [ho])) hne)
    (fun hne => absurd (h.home.no_cvarWaiters (by simp [ho])) hne),
    h.owner.setObject (h.owner.lt (by rw [ho]; simp)) (fun l he => by cases he),
    h.family,h.table,h.lock.setObject (h.lock.no_acquirer (by simp [ho]))
    (h.home.no_lockWaiters (by simp [ho])),h.saved,h.reader,h.writer⟩

/-- An object that is not in use is freed. -/
theorem coherent_reclaim (h : Coherent M s) {i : ℕ} (hu : inUse s i (s.objects i)=false) :
    Coherent M {s with objects := Function.update s.objects i .free} := by
  have hq : s.queue (.readers i)=[] ∧ s.queue (.lockWaiters i)=[] ∧
      s.queue (.cvarWaiters i)=[] ∧ (∀ l,s.objects i=.lock l → l.owner=0) ∧
      s.objects i≠.free := by
    cases ho : s.objects i with
    | free => simp [ho,inUse] at hu
    | pipe pipe =>
      simp [ho,inUse] at hu
      exact ⟨hu,h.home.no_lockWaiters (by simp [ho]),h.home.no_cvarWaiters (by simp [ho]),
        by simp,by simp⟩
    | lock l =>
      simp [ho,inUse] at hu
      exact ⟨h.home.no_readers (by simp [ho]),hu.2,h.home.no_cvarWaiters (by simp [ho]),
        by simpa using hu.1,by simp⟩
    | cvar cvar =>
      simp [ho,inUse] at hu
      exact ⟨h.home.no_readers (by simp [ho]),h.home.no_lockWaiters (by simp [ho]),hu,
        by simp,by simp⟩
  obtain ⟨hr,hl,hc,ho,hf⟩ := hq
  have hn : ∀ x id g,s.live x=true → (s.kernelContext x).point=.acquire id g → id.toNat≠i := by
    intro x id g hx hk
    by_cases hlock : ∃ l,s.objects i=.lock l
    · obtain ⟨l,hlock⟩ := hlock
      refine h.lock.only_owner hlock hl (fun hlive => ?_) x id g hx hk
      rw [ho l hlock,h.ready.null] at hlive
      cases hlive
    · exact h.lock.no_acquirer (fun l he => hlock ⟨l,he⟩) x id g hx hk
  exact ⟨h.ready,h.block,h.home.setObject (fun hne => absurd hr hne) (fun hne => absurd hl hne)
    (fun hne => absurd hc hne),h.owner.setObject (h.owner.lt hf) (fun l he => by cases he),
    h.family,h.table,h.lock.setObject hn hl,h.saved,h.reader,h.writer⟩

/-- Terminals whose writers and transmissions stay. -/
theorem coherent_setTerminal (h : Coherent M s) {i : ℕ} {v : TtyState}
    (hw : v.writer=(s.terminals i).writer) (hb : v.busy=(s.terminals i).busy) :
    Coherent M (s.setTerminal i v) := by
  have hw' : ∀ j,(Function.update s.terminals i v j).writer=(s.terminals j).writer := by
    intro j
    by_cases he : j=i
    · subst he; rw [Function.update_self]; exact hw
    · rw [Function.update_of_ne he]
  have hb' : ∀ j,(Function.update s.terminals i v j).busy=(s.terminals j).busy := by
    intro j
    by_cases he : j=i
    · subst he; rw [Function.update_self]; exact hb
    · rw [Function.update_of_ne he]
  exact ⟨h.ready,h.block.shrink (fun _ hd => hd) (fun _ hx => hx) (fun j _ => hw' j) h.ready.null,
    h.home,h.owner,h.family,h.table,h.lock,h.saved,h.reader,h.writer.keepTerminals hw' hb'⟩

/-- The line of a process is dropped. -/
theorem coherent_dropLine (h : Coherent M s) (p : PcbPtr) :
    Coherent M (s.setTty p {s.tty p with readLine := none}) :=
  ⟨h.ready,h.block,h.home,h.owner,h.family,h.table,h.lock,h.saved,h.reader.setTty (.inl rfl),
    h.writer.keepWrite rfl rfl⟩

/-- Bytes of a line are taken. -/
theorem coherent_ttyTakeBytes (h : Coherent M s) {i : ℕ} {v : TtyState} (line : TtyLine)
    (hw : v.writer=(s.terminals i).writer) (hb : v.busy=(s.terminals i).busy) :
    Coherent M (ttyTakeBytes i line v s) := by
  have hd := coherent_dropLine h s.currentProcess
  unfold ttyTakeBytes
  cases lineRest line (lineCount line (s.tty s.currentProcess).readLen) with
  | none =>
    have ht := coherent_setTerminal (i := i) (v := v) hd hw hb
    exact ⟨ht.ready,ht.block,ht.home,ht.owner,ht.family,ht.table,ht.lock,ht.saved,ht.reader,
      ht.writer⟩
  | some rest =>
    have ht := coherent_setTerminal (i := i) (v := {v with line := some rest}) hd hw hb
    exact ⟨ht.ready,ht.block,ht.home,ht.owner,ht.family,ht.table,ht.lock,ht.saved,ht.reader,
      ht.writer⟩

/-- Taking the next line keeps writer and transmission. -/
theorem ttyNextLine_writer {v v' : TtyState} {line : Option TtyLine}
    (h : ttyNextLine v=(line,v')) : v'.writer=v.writer ∧ v'.busy=v.busy := by
  unfold ttyNextLine at h
  split at h
  · injection h with _ h
    subst h
    exact ⟨rfl,rfl⟩
  · split at h
    · injection h with _ h
      subst h
      exact ⟨rfl,rfl⟩
    · injection h with _ h
      subst h
      exact ⟨rfl,rfl⟩

/-- A handed line is taken up by the current process. -/
theorem coherent_takeHanded (h : Coherent M s) {i : ℕ} {line : TtyLine}
    (hl : (s.tty s.currentProcess).readLine=some line) :
    Coherent M (ttyTakeBytes i line (s.terminals i)
      (s.setKernelContext s.currentProcess ⟨s.currentProcess,.executing⟩)) := by
  have hb := (h.reader.handed _ line h.ready.current_live hl).2.1
  have hd := coherent_ttyTakeBytes (i := i) (v := s.terminals i) h line rfl rfl
  exact {hd with
    lock := hd.lock.setSaved (fun _ => h.block.unqueued hb _) (by simp)
    saved := hd.saved.setSaved (fun _ => rfl) (by simp) trivial (fun _ => .inl rfl)
    reader := hd.reader.setSaved (fun j => h.block.unqueued hb _) (by
      show (Function.update s.tty s.currentProcess
        {s.tty s.currentProcess with readLine := none} s.currentProcess).readLine=none
      rw [Function.update_self])}

/-- A received line is handed to the first reader. -/
theorem coherent_deliver (h : Coherent M s) {i : ℕ} {r : PcbPtr} {rest : List PcbPtr}
    (line : TtyLine) (hq : s.queue (.readQueue i)=r::rest) : Coherent M (markReady {s with
      queue := Function.update s.queue (.readQueue i) rest
      blockQueue := Function.update s.blockQueue r none
      tty := Function.update s.tty r {s.tty r with readLine := some line}} r) := by
  have hd := coherent_wake h hq (by simp) (by simp)
  have hk := h.reader.reading i r (by rw [hq]; exact List.mem_cons_self)
  exact {hd with
    reader := hd.reader.hand hk (by simp [markReady])
    writer := hd.writer.keepWrite rfl rfl}

/-- The writer of a terminal has no other reason. -/
theorem only_writer (h : Coherent M s) {i : ℕ} (hw : (s.terminals i).writer≠0) {r : Reason}
    (hr : BlockedBy s (s.terminals i).writer r) : r=.writer i :=
  h.block.reasons.unique _ r (.writer i) (h.block.writer_live i hw) hr rfl

/-- The writer of a terminal is blocked. -/
theorem writer_blocked (h : Coherent M s) {i : ℕ} (hw : (s.terminals i).writer≠0) :
    s.state (s.terminals i).writer=.blocked :=
  h.block.reasons.blocked _ (.writer i) (h.block.writer_live i hw) rfl

/-- The writer of a terminal is no acquirer. -/
theorem writer_not_acquire (h : Coherent M s) {i : ℕ} (hw : (s.terminals i).writer≠0) (id : ℤ)
    (g : ℕ) : (s.kernelContext (s.terminals i).writer).point≠.acquire id g := by
  intro hk
  obtain ⟨_,_,_,_,_,hq,_⟩ := h.lock.acquirer _ id g (h.block.writer_live i hw) hk
  cases only_writer h hw (r := .queue _) (hq (writer_blocked h hw))

/-- The next chunk of the writer starts. -/
theorem coherent_transmitMore (h : Coherent M s) {i : ℕ} (hw : (s.terminals i).writer≠0) :
    Coherent M (ttyTransmit M i (transmitDone i s)) := by
  have hb : (s.terminals i).busy=true := (h.writer.busy i).2 hw
  have hd : Coherent M (s.setTerminal i (s.terminals i)) := coherent_setTerminal h rfl rfl
  have ht : Function.update (Function.update s.terminals i {s.terminals i with busy := false}) i
      {(Function.update s.terminals i {s.terminals i with busy := false} i) with busy := true}=
      Function.update s.terminals i (s.terminals i) := by
    rw [Function.update_idem,Function.update_self]
    congr 1
    cases hv : s.terminals i
    rw [hv] at hb
    simpa using hb.symm
  have hblock := hd.block
  have hwriter := hd.writer.setTty (p := (s.terminals i).writer)
    (r := (ttyTransmit M i (transmitDone i s)).tty (s.terminals i).writer)
    (.inl (fun j hm => by cases only_writer h hw (r := .queue _) hm))
  simp only [Kernel.setTerminal] at hblock hwriter
  rw [← ht] at hblock hwriter
  refine ⟨h.ready,hblock,h.home,h.owner,h.family,h.table,h.lock,h.saved,
    h.reader.keepLines (fun x => ttyTransmit_readLine i x),?_⟩
  simpa [ttyTransmit,transmitDone] using hwriter

/-- The last chunk of the only writer has completed. -/
theorem coherent_releaseWriter (h : Coherent M s) {i : ℕ} (u : UserContext)
    (hw : (s.terminals i).writer≠0) (hq : s.queue (.writeQueue i)=[]) :
    Coherent M (releaseWriter i u s) := by
  have hz : ∀ j,(Function.update s.terminals i {s.terminals i with busy := false, writer := 0}
      j).writer≠0 → j≠i ∧ (Function.update s.terminals i
        {s.terminals i with busy := false, writer := 0} j).writer=(s.terminals j).writer := by
    intro j hj
    by_cases he : j=i
    · subst he; simp at hj
    · exact ⟨he,by rw [Function.update_of_ne he]⟩
  have hc : Coherent M {s with
      userContext := Function.update s.userContext (s.terminals i).writer u
      terminals := Function.update s.terminals i {s.terminals i with busy := false, writer := 0}
      log := s.log++[.ttyCompleted i,.woken (s.terminals i).writer (.written i)]} :=
    ⟨h.ready,h.block.shrink (fun _ hd => hd) (fun _ hx => hx) (fun j hj => (hz j hj).2)
      h.ready.null,h.home,h.owner,h.family,h.table,h.lock,h.saved,h.reader,
      h.writer.setTerminal (by simp) (fun hne => absurd hq hne)⟩
  refine coherent_markReady hc (h.block.writer_live i hw) (writer_blocked h hw) ?_
    (writer_not_acquire h hw)
  intro r hr
  cases r with
  | delay => cases only_writer h hw (r := .delay) hr
  | child => cases only_writer h hw (r := .child) hr
  | queue q => cases only_writer h hw (r := .queue q) hr
  | writer j =>
    have hj := hz j (by rw [show _=_ from hr]; exact hw)
    have := only_writer h hw (r := .writer j) (hj.2.symm.trans hr)
    injection this with this
    exact hj.1 this

/-- The last chunk of a writer has completed and the next writer starts. -/
theorem coherent_transmitNext (h : Coherent M s) {i : ℕ} (u : UserContext) {w : PcbPtr}
    {rest : List PcbPtr} (hw : (s.terminals i).writer≠0) (hq : s.queue (.writeQueue i)=w::rest) :
    Coherent M (ttyTransmit M i (nextWriter i w rest (releaseWriter i u s))) := by
  have hm : w∈s.queue (.writeQueue i) := by rw [hq]; exact List.mem_cons_self
  have hl := h.block.queue_live _ w hm
  have h0 := h.ready.ne_null hl
  have hne : (s.terminals i).writer≠w := by
    intro he
    cases only_writer h hw (r := .queue (.writeQueue i)) (by rw [he]; exact hm)
  -- The old writer loses the terminal, the popped process gets it.
  have hz : ∀ x j,s.live x=true → (Function.update s.terminals i
      {s.terminals i with busy := true, writer := w} j).writer=x →
      ((s.terminals j).writer=x ∧ j≠i) ∨ (x=w ∧ j=i) := by
    intro x j _ hx
    by_cases he : j=i
    · subst he
      rw [Function.update_self] at hx
      exact .inr ⟨hx.symm,rfl⟩
    · rw [Function.update_of_ne he] at hx
      exact .inl ⟨hx,he⟩
  have hb : BlockOk s.live s.state s.delayUntil s.waitingForChild
      (Function.update s.queue (.writeQueue i) rest) (Function.update s.blockQueue w none)
      (Function.update s.terminals i {s.terminals i with busy := true, writer := w}) :=
    (h.block.pop hq).grow (e := .writer i) (h.block.blocked hm) (h.block.pop_free hq)
      (fun x r hx hr => by
      cases r with
      | delay => exact .inl hr
      | child => exact .inl hr
      | queue q => exact .inl hr
      | writer j =>
        rcases hz x j hx hr with hx'|⟨rfl,rfl⟩
        · exact .inl hx'.1
        · exact .inr ⟨rfl,rfl⟩) (fun j hj => by
      by_cases he : j=i
      · subst he; rw [Function.update_self]; exact hl
      · rw [Function.update_of_ne he] at hj ⊢; exact h.block.writer_live j hj)
  have hpend := h.writer.pending i
  rw [hq] at hpend
  have hwr := ((h.writer.setTerminal (t := i) (v := {s.terminals i with busy := true, writer := w})
    (by simpa using h0) (fun _ => h0)).setWriteQueue (t := i) (l := rest)
    (fun _ => by rw [Function.update_self]; exact h0)
    (fun x hx => hpend x (List.mem_cons_of_mem _ hx))).setTty (p := w)
    (r := (ttyTransmit M i (nextWriter i w rest (releaseWriter i u s))).tty w)
    (.inl (fun j hj => (h.block.pop_subset hq hj).2 rfl))
  have hc : Coherent M {s with
      queue := Function.update s.queue (.writeQueue i) rest
      blockQueue := Function.update s.blockQueue w none
      terminals := Function.update s.terminals i {s.terminals i with busy := true, writer := w}
      tty := Function.update s.tty w
        ((ttyTransmit M i (nextWriter i w rest (releaseWriter i u s))).tty w)} :=
    ⟨h.ready,hb,h.home.pop hq,h.owner,h.family,h.table,h.lock.setQueue (by simp),h.saved,
      (h.reader.setQueue (by simp)).setTty (.inr (ttyTransmit_readLine i w)),hwr⟩
  have hf := coherent_markReady hc (p := (s.terminals i).writer) (h.block.writer_live i hw)
    (writer_blocked h hw) (fun r hr => by
      cases r with
      | delay => cases only_writer h hw (r := .delay) hr
      | child => cases only_writer h hw (r := .child) hr
      | queue q => cases only_writer h hw (r := .queue q) (h.block.pop_subset hq hr).1
      | writer j =>
        rcases hz _ j (h.block.writer_live i hw) hr with ⟨hj,hji⟩|⟨he,_⟩
        · have := only_writer h hw (r := .writer j) hj
          injection this with this
          exact hji this
        · exact hne he) (writer_not_acquire h hw)
  have ht : (ttyTransmit M i (nextWriter i w rest (releaseWriter i u s))).terminals=
      Function.update s.terminals i {s.terminals i with busy := true, writer := w} := by
    simp [ttyTransmit,nextWriter,releaseWriter,markReady]
  have hty : (ttyTransmit M i (nextWriter i w rest (releaseWriter i u s))).tty=
      Function.update s.tty w
        ((ttyTransmit M i (nextWriter i w rest (releaseWriter i u s))).tty w) := by
    simp [ttyTransmit,nextWriter,releaseWriter,markReady]
  refine ⟨hf.ready,?_,hf.home,hf.owner,hf.family,hf.table,hf.lock,hf.saved,?_,?_⟩
  · rw [ht]; exact hf.block
  · rw [hty]; exact hf.reader
  · rw [ht,hty]; exact hf.writer

/-- A finished writer takes up its stack and forgets its bytes. -/
theorem coherent_writeDone {len : ℤ} (h : Coherent M s) (hr : Runnable s)
    (hk : (s.kernelContext s.currentProcess).point=.ttyWrite i len) :
    Coherent M (((s.setKernelContext s.currentProcess
      ⟨s.currentProcess,.executing⟩).setTty s.currentProcess {s.tty s.currentProcess with
        writeBuf := fun _ => 0, writeLen := 0, writeOffset := 0}).emit
          (.ttyWriteReturned i s.currentProcess len)) := by
  have hd := coherent_setSaved h hr (k := ⟨s.currentProcess,.executing⟩)
    (no_handed h (by simp [hk])) (.inl rfl)
  exact {hd with
    reader := hd.reader.setTty (.inr rfl)
    writer := hd.writer.setTty (.inl (fun j => h.block.unqueued hr.not_blocked _))}

/-- A parent that goes on waits for no child any more. -/
theorem coherent_clearWaiting (h : Coherent M s) : Coherent M {s with
    waitingForChild := Function.update s.waitingForChild s.currentProcess false} := by
  refine {h with
    block := h.block.shrink (fun _ hd => hd) (fun x hx => ?_) (fun _ _ => rfl) h.ready.null}
  dsimp only at hx
  by_cases he : x=s.currentProcess
  · subst he
    rw [Function.update_self] at hx
    cases hx
  · rwa [Function.update_of_ne he] at hx

/-- A reader waits in the queue of a pipe that is open. -/
theorem coherent_blockPipe {id : ℤ} {buf : ℕ} {len : ℤ} {pipe : PipeState} {k : KernelContext}
    (h : Coherent M s) (hb : MayBlock s) (hk : k.point=.pipeRead id buf len pipe.opened)
    (hl : 0<len) (ho : getObject s id=.pipe pipe) (u : UserContext) :
    Coherent M (blockCurrent (.readers id.toNat) k u s) := by
  have hused : getObject s id≠.free := by
    rw [ho]
    simp
  obtain ⟨_,_,hg⟩ := getObject_bounds hused
  exact coherent_blockCurrent (q := .readers _) h hb ⟨pipe,hg.symm.trans ho⟩ (by simp) (by simp)
    (by simp) (by simp [hk]) (by simp [hk]) (by simp [hk]) (by rw [hk]; exact hl) u

/-- A process waits in the queue of a condition variable that is open. -/
theorem coherent_blockCvar {id lockId : ℤ} {cvar : CvarState} {lockOpened : ℕ} {k : KernelContext}
    (h : Coherent M s) (hb : MayBlock s)
    (hk : k.point=.cvarWait id lockId cvar.opened lockOpened)
    (ho : getObject s id=.cvar cvar) (u : UserContext) :
    Coherent M (blockOnCvar id.toNat k u s) := by
  have hused : getObject s id≠.free := by
    rw [ho]
    simp
  obtain ⟨_,_,hg⟩ := getObject_bounds hused
  have hd := coherent_blockCurrent (q := .cvarWaiters id.toNat) (k := k) h hb
    ⟨cvar,hg.symm.trans ho⟩ (by simp) (by simp) (by simp) (by simp [hk]) (by simp [hk])
    (by simp [hk]) (by rw [hk]; trivial) u
  exact {hd with}

/-- A free lock has no waiters, and the running process takes it. -/
theorem coherent_takeLock {l : LockState} (h : Coherent M s) (hb : MayBlock s)
    (ho : s.objects i=.lock l) (hl : l.owner=0) : Coherent M (takeLock i l s) := by
  have hq : s.queue (.lockWaiters i)=[] := by
    by_contra hne
    exact h.lock.owned i l ho hne hl
  have hc := coherent_setOwner (p := s.currentProcess) h ho hq
    (fun hlive => by rw [hl,h.ready.null] at hlive; cases hlive)
    (fun _ => ⟨h.ready.current_live,hb.notIdle,hb.toRunnable.not_zombie⟩)
  exact {hc with}

/-- A terminal without a writer is not busy. -/
theorem idle_terminal (h : Coherent M s) (hw : (s.terminals i).writer=0) :
    (s.terminals i).busy=false := by
  cases hbusy : (s.terminals i).busy with
  | false => rfl
  | true => exact absurd hw ((h.writer.busy i).1 hbusy)

/-- Every operation keeps the kernel coherent. -/
theorem op_coherent {b : Bool} (h : Coherent M s) (hop : Op M allow b s t) : Coherent M t := by
  cases hop with
  | toUser u => exact {h with}
  | stop c => exact {h with}
  | context p u => exact {h with}
  | note e => exact {h with}
  | tick => exact {h with}
  | begin hr hl hn => exact coherent_setSaved h hr hn (.inl rfl)
  | preempt ha =>
    exact coherent_setSaved h ha.toRunnable (no_line h ha) (.inr rfl)
  | readRequest i buf len =>
    exact {h with
      reader := h.reader.setTty (.inr rfl)
      writer := h.writer.keepWrite rfl rfl}
  | writeDone i len hr hk => exact coherent_writeDone h hr hk
  | clearWaiting ha => exact coherent_clearWaiting h
  | sleepOver p hl ho => exact coherent_sleepOver h hl ho
  | requeue hi hs => exact coherent_requeue h hi hs
  | dispatch env hs hc hk => exact coherent_dispatchNext h env hs hk
  | forkFails env m => exact {h with}
  | forkUndone env c pfns pt m₁ m u ha hc =>
    obtain ⟨h0,hl⟩ := callocPcb_fresh hc
    exact coherent_forkUndone h ha h0 hl _ _ _ _ _
  | spawn env caller c pfns pt m₁ m u hb hc =>
    obtain ⟨h0,hl⟩ := callocPcb_fresh hc
    exact coherent_spawn h hb h0 hl _ _ _ _ _ _ _
  | respace env m v => exact {h with}
  | orphan c rest ha hc => exact coherent_orphan h hc
  | unlock i l ha hl ho hq =>
    have hc := coherent_setOwner (p := 0) h hl hq (by rw [ho]; exact fun _ => ha.not_acquire)
      (fun hne => absurd rfl hne)
    exact {hc with}
  | handOff i l w rest u ha hl ho hq => exact coherent_handOff h ha u hl ho hq
  | zombie status k env m v hk hb hc ho =>
    have hd := coherent_zombie h hb hk hc ho
    exact {hd with}
  | zombieWake status k env m v hk hb hc ho hp hw =>
    have hd := coherent_wakeParent (coherent_zombie h hb hk hc ho)
      (h.family.parent_child _ h.ready.current_live hp).1 hw
    exact {hd with}
  | collect statusPtr c ha hc hz => exact coherent_collectChild h ha statusPtr hc hz
  | blockDelay ticks k u hk hb => exact coherent_blockForDelay h hb hk _ u
  | blockChild statusPtr k u hk hb => exact coherent_blockForChild h hb hk u
  | blockPipe id buf len pipe k u hk hb hl ho => exact coherent_blockPipe h hb hk hl ho u
  | blockLock id l k u hk hb ho hl => exact coherent_blockOnLock h hb hk ho hl u
  | blockCvar id lockId cvar g k u hk hb ho => exact coherent_blockCvar h hb hk ho u
  | blockRead i k u hk hb ht => exact coherent_blockRead h hb ht hk u
  | startWrite env i buf len k u hk hb ht hl hw => exact coherent_startWrite h hb hk hw env u
  | queueWrite env i buf len k u hk hb ht hl hw =>
    exact coherent_queueWrite h hb hk ht hl (fun hz => hw ⟨hz,idle_terminal h hz⟩) env u
  | wake q w rest u hn hq =>
    have hd := coherent_wake h hq (by rcases hn with ⟨_,rfl⟩|⟨_,rfl⟩ <;> simp)
      (by rcases hn with ⟨_,rfl⟩|⟨_,rfl⟩ <;> simp)
    exact {hd with}
  | openPipe env i hi hf =>
    have hd := coherent_open h hi hf (o := .pipe ⟨env.junk,0,M.pipeBufferLen,s.stamp⟩)
      (by simp) (.inl rfl)
    exact {hd with}
  | openLock i hi hf =>
    have hd := coherent_open h hi hf (o := .lock ⟨0,s.stamp⟩)
      (by rintro l he; injection he with he; subst he; rfl) (.inr (.inl rfl))
    exact {hd with}
  | openCvar i hi hf =>
    have hd := coherent_open h hi hf (o := .cvar ⟨s.stamp⟩) (by simp) (.inr (.inr rfl))
    exact {hd with}
  | takeBytes i pipe len ho =>
    have hd := coherent_setPipe h (consumeBytes pipe (readCount pipe len)) ho
    exact {hd with}
  | putBytes env i pipe grown buf len ho =>
    have hd := coherent_setPipe h (appendBytes grown env.mem buf len) ho
    exact {hd with}
  | lockTake i l hb ho hl => exact coherent_takeLock h hb ho hl
  | lockResume id l hr hk ho hl =>
    have hd := coherent_setSaved h hr (k := ⟨s.currentProcess,.executing⟩)
      (no_handed h (by simp [hk])) (.inl rfl)
    exact {hd with}
  | reclaim i hu => exact coherent_reclaim h hu
  | takeHanded i line hk hl => exact coherent_takeHanded h hl
  | takeLine i line v ha hn =>
    exact coherent_ttyTakeBytes h line (ttyNextLine_writer hn).1 (ttyNextLine_writer hn).2
  | deliver i line r rest hl hq =>
    have hd := coherent_deliver h line hq
    exact {hd with}
  | enqueue i line hl hq =>
    have hd := coherent_setTerminal (i := i) (v := {s.terminals i with
      inputQueue := (s.terminals i).inputQueue++[line]}) h rfl rfl
    exact {hd with}
  | transmitSpurious i hw =>
    have hd := coherent_setTerminal (v := {s.terminals i with busy := false}) h rfl
      (idle_terminal h hw).symm
    exact {hd with}
  | transmitMore i hw => exact coherent_transmitMore h hw
  | transmitLast i u hw hf hq => exact coherent_releaseWriter h u hw hq
  | transmitNext i u w rest hw hf hq => exact coherent_transmitNext h u hw hq

end Yalnix.OperationCoherence

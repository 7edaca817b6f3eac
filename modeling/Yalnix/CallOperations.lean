import Yalnix.StepOperations

/-!
# System calls, traps and resumed calls as operations

Each call of the dispatcher, each trap handler and each resumed kernel stack
is taken apart into operations. The conditions of the sources become the side
conditions of the operations. The labels a step may use are collected in one
predicate on the state before the step.
-/

namespace Yalnix.CallOperations

open Framework FrameTable KernelState Scheduling Ipc Terminals ProcessLifetime ProgramLoading
open Syscalls Traps KernelStart Coherence Operations OperationCoherence StepOperations

variable {M : Machine} {allow : Label → Prop} {s t : Kernel} {env : Env}

/-- A call that changes nothing. -/
theorem carried_same (u : UserContext) (rc : ℤ) : Carried M allow s (.returns s u rc) := .refl

/-- A process other than null and idle may block. -/
theorem mayBlock (ha : Active s) (hi : ¬(s.currentProcess=0 ∨ s.currentProcess=s.idleProcess)) :
    MayBlock s := ⟨ha,fun he => hi (.inr he)⟩

/-- Stopping the machine is an operation that ends in a settled state. -/
theorem stop_done (h : Coherent M s) (ha : Active s) (hv : allow (.space env)) {c : Cpu}
    (hu : c≠.user) (hk : c≠.kernel) (hz : c≠.aborted "zombie process resumed") :
    Ops M allow s {s with cpu := c} ∧ Settled M {s with cpu := c} := by
  have hop : Op M allow false s _ := .stop c env s.memory (s.space s.currentProcess) ha hu hk hz
    .kept hv
  rw [Function.update_eq_self] at hop
  exact ⟨.single ⟨false,hop⟩,settled_stopped h ha hu hk⟩

section Waking

/-- Waking the first process of a queue makes it ready. -/
theorem wakeOne_eq (h : Coherent M s) {q : QueueAddr} {w : PcbPtr} {rest : List PcbPtr}
    (hq : s.queue q=w::rest) :
    (wakeOne q s).2=markReady {s with
      queue := Function.update s.queue q rest
      blockQueue := Function.update s.blockQueue w none
      userContext := Function.update s.userContext w ((s.userContext w).setResult SUCCESS)
      log := s.log++[.woken w (.pop q)]} w := by
  have hm : w∈s.queue q := by rw [hq]; exact List.mem_cons_self
  have hb := h.block.blocked hm
  unfold wakeOne
  rw [hq]
  exact processMakeReady_eq (h.ready.ne_null (h.block.queue_live q w hm))
    (h.ready.ne_idle (by rw [hb]; decide)) (show s.state w≠.zombie by rw [hb]; decide)
    (h.ready.unlinked (by rw [hb]; decide))

/-- Waking the first process of a pipe or condition variable. -/
theorem wakeOne_calm (h : Coherent M s) {q : QueueAddr}
    (hn : (∃ i,q=.readers i) ∨ ∃ i,q=.cvarWaiters i) (ho : allow (.wakes q)) :
    Calm M allow s (wakeOne q s).2 := by
  cases hq : s.queue q with
  | nil =>
    unfold wakeOne
    rw [hq]
  | cons w rest =>
    rw [wakeOne_eq h hq]
    exact .single (.wake q w rest _ hn hq ho)

/-- Waking one process shortens its queue. -/
theorem wakeOne_queue {q : QueueAddr} : (wakeOne q s).2.queue q=(s.queue q).tail := by
  unfold wakeOne
  cases hq : s.queue q with
  | nil => exact hq
  | cons w rest =>
    unfold processMakeReady
    dsimp only
    split
    · simp
    · split <;> simp

/-- Waking as often as the queue is long. -/
theorem wakeIter_calm (h : Coherent M s) (ha : Active s) {q : QueueAddr}
    (hn : (∃ i,q=.readers i) ∨ ∃ i,q=.cvarWaiters i) (ho : allow (.wakes q)) (n : ℕ) :
    Calm M allow s ((fun s => (wakeOne q s).2)^[n] s) ∧
      ((fun s => (wakeOne q s).2)^[n] s).queue q=(s.queue q).drop n := by
  induction n generalizing s with
  | zero => exact ⟨.refl,rfl⟩
  | succ n ih =>
    have hw : Calm M allow s (wakeOne q s).2 := wakeOne_calm h hn ho
    obtain ⟨hc,hact⟩ := calm_keeps h ha hw
    obtain ⟨hi,hq⟩ := ih hc hact
    rw [Function.iterate_succ_apply]
    refine ⟨hw.trans hi,?_⟩
    rw [hq,wakeOne_queue,List.drop_tail]

/-- Waking all processes of a queue empties it. -/
theorem wakeAll_calm (h : Coherent M s) (ha : Active s) {q : QueueAddr}
    (hn : (∃ i,q=.readers i) ∨ ∃ i,q=.cvarWaiters i) (ho : allow (.wakes q)) :
    Calm M allow s (wakeAll q s) ∧ (wakeAll q s).queue q=[] := by
  have hw : Calm M allow s _ ∧ _ := wakeIter_calm h ha hn ho (s.queue q).length
  refine ⟨hw.1,?_⟩
  unfold wakeAll
  rw [hw.2,List.drop_length]

/-- Waking does not look at the object table. -/
theorem wakeOne_objects (q : QueueAddr) (o : ℕ → IpcObject) :
    (wakeOne q {s with objects := o}).2={(wakeOne q s).2 with objects := o} := by
  unfold wakeOne
  dsimp only
  cases hq : s.queue q with
  | nil => rfl
  | cons w rest =>
    unfold processMakeReady
    dsimp only
    split
    · rfl
    · split <;> rfl

/-- Waking all does not look at the object table. -/
theorem wakeAll_objects (q : QueueAddr) (o : ℕ → IpcObject) :
    wakeAll q {s with objects := o}={wakeAll q s with objects := o} := by
  have hc : Function.Semiconj (fun s : Kernel => {s with objects := o})
      (fun s => (wakeOne q s).2) (fun s => (wakeOne q s).2) :=
    fun s => (wakeOne_objects q o).symm
  exact ((hc.iterate_right (s.queue q).length) s).symm

/-- Waking keeps the object table. -/
theorem wakeOne_objects_eq (q : QueueAddr) : (wakeOne q s).2.objects=s.objects := by
  unfold wakeOne
  cases hq : s.queue q with
  | nil => rfl
  | cons w rest =>
    unfold processMakeReady
    dsimp only
    split
    · rfl
    · split <;> rfl

/-- Waking all keeps the object table. -/
theorem wakeAll_objects_eq (q : QueueAddr) : (wakeAll q s).objects=s.objects := by
  unfold wakeAll
  induction (s.queue q).length generalizing s with
  | zero => rfl
  | succ n ih => rw [Function.iterate_succ_apply,ih,wakeOne_objects_eq]

/-- Waking keeps the current process. -/
theorem wakeOne_currentProcess (q : QueueAddr) :
    (wakeOne q s).2.currentProcess=s.currentProcess := by
  unfold wakeOne
  cases hq : s.queue q with
  | nil => rfl
  | cons w rest =>
    unfold processMakeReady
    dsimp only
    split
    · rfl
    · split <;> rfl

/-- Waking keeps the idle process. -/
theorem wakeOne_idleProcess (q : QueueAddr) :
    (wakeOne q s).2.idleProcess=s.idleProcess := by
  unfold wakeOne
  cases hq : s.queue q with
  | nil => rfl
  | cons w rest =>
    unfold processMakeReady
    dsimp only
    split
    · rfl
    · split <;> rfl

end Waking

section Objects

/-- The entry that is found is one of the table and free. -/
theorem allocObject_free {i : ℕ} (h : allocObject s=some i) :
    i<IPC_MAX_OBJECTS ∧ s.objects i=.free := by
  unfold allocObject at h
  have hm := List.mem_of_find?_eq_some h
  have hf := List.find?_some h
  refine ⟨List.mem_range.1 hm,?_⟩
  cases ho : s.objects i with
  | free => rfl
  | pipe pipe => rw [ho] at hf; cases hf
  | lock l => rw [ho] at hf; cases hf
  | cvar c => rw [ho] at hf; cases hf

/-- SysPipeInit opens a pipe in a free slot or changes nothing. -/
theorem sysPipeInit_carried (pipeIdp : ℕ) (u : UserContext)
    (ho : ∀ i,allocObject s=some i → pipeIdp≠0 → env.malloc 0=true →
      allow (.opens i .pipeInit s.live s.kernelContext)) :
    Carried M allow s (sysPipeInit M env pipeIdp u s) := by
  unfold sysPipeInit
  split
  · exact carried_same u _
  · rename_i hp
    split
    · exact carried_same u _
    · rename_i i halloc
      obtain ⟨hi,hf⟩ := allocObject_free halloc
      split
      · rename_i hm
        exact (Relation.ReflTransGen.single (.openPipe env i hi hf (ho i halloc hp hm))).tail
          (.note (.stored s.currentProcess pipeIdp 4) trivial)
      · exact carried_same u _

/-- SysLockInit opens a lock in a free slot or changes nothing. -/
theorem sysLockInit_carried (lockIdp : ℕ) (u : UserContext)
    (ho : ∀ i,allocObject s=some i → lockIdp≠0 →
      allow (.opens i .lockInit s.live s.kernelContext)) :
    Carried M allow s (sysLockInit lockIdp u s) := by
  unfold sysLockInit
  split
  · exact carried_same u _
  · rename_i hp
    split
    · exact carried_same u _
    · rename_i i halloc
      obtain ⟨hi,hf⟩ := allocObject_free halloc
      exact (Relation.ReflTransGen.single (.openLock i hi hf (ho i halloc hp))).tail
        (.note (.stored s.currentProcess lockIdp 4) trivial)

/-- SysCvarInit opens a condition variable in a free slot or changes nothing. -/
theorem sysCvarInit_carried (cvarIdp : ℕ) (u : UserContext)
    (ho : ∀ i,allocObject s=some i → cvarIdp≠0 →
      allow (.opens i .cvarInit s.live s.kernelContext)) :
    Carried M allow s (sysCvarInit cvarIdp u s) := by
  unfold sysCvarInit
  split
  · exact carried_same u _
  · rename_i hp
    split
    · exact carried_same u _
    · rename_i i halloc
      obtain ⟨hi,hf⟩ := allocObject_free halloc
      exact (Relation.ReflTransGen.single (.openCvar i hi hf (ho i halloc hp))).tail
        (.note (.stored s.currentProcess cvarIdp 4) trivial)

/-- The object an identifier in use denotes. -/
theorem objects_of_getObject {id : ℤ} {o : IpcObject} (h : getObject s id=o) (hf : o≠.free) :
    s.objects id.toNat=o := by
  rw [← (getObject_bounds (by rw [h]; exact hf)).2.2]
  exact h

/-- The loop of PipeRead returns behind calm operations or leaves a settled state. -/
theorem pipeReadLoop_carried (h : Coherent M s) (hb : MayBlock s) (hs : env.switchOk=true)
    (caller : PcbPtr) (id : ℤ) (buf : ℕ) {len : ℤ} (hl : 0<len) (u : UserContext) :
    Carried M allow s (pipeReadLoop M env caller id buf len u s) := by
  unfold pipeReadLoop
  split
  · rename_i pipe ho
    have hobj := objects_of_getObject ho (by simp)
    split
    · rename_i he
      exact Carried.block h hs (.blockPipe id buf len pipe _ u rfl hb hl ho he) hb.running
        (by simp [blockCurrent]) hb.unlinked (by simp [blockCurrent])
        (.inl (show s.delayUntil s.currentProcess=0 from no_deadline h hb.toActive))
    · rename_i he
      have hnote : Op M allow true s (s.emit (.stored s.currentProcess buf
          (readCount pipe len).toNat)) := .note _ trivial
      have htake : Op M allow true (s.emit (.stored s.currentProcess buf
          (readCount pipe len).toNat)) _ := .takeBytes id.toNat pipe len hobj hl he
      have hseq := (Relation.ReflTransGen.single hnote).tail htake
      simpa only [Carried,Kernel.emit,List.append_assoc,List.singleton_append] using hseq
  · exact carried_same u _

/-- SysPipeRead checks its arguments and enters the loop that takes bytes. -/
theorem sysPipeRead_carried (h : Coherent M s) (ha : Active s) (hs : env.switchOk=true)
    (caller : PcbPtr) (id : ℤ) (buf : ℕ) (len : ℤ) (u : UserContext) :
    Carried M allow s (sysPipeRead M env caller id buf len u s) := by
  unfold sysPipeRead
  split
  · exact carried_same u _
  · split
    · exact carried_same u _
    · split
      · exact carried_same u _
      · rename_i h₁ h₂ h₃
        exact pipeReadLoop_carried h (mayBlock ha h₃) hs caller id buf (by omega) u

/-- SysPipeWrite wakes the readers and puts the bytes into the pipe. -/
theorem sysPipeWrite_carried (h : Coherent M s) (ha : Active s) (id : ℤ) (buf : ℕ) (len : ℤ)
    (u : UserContext) (hv : allow (.space env)) (hr : 0≤ id → allow (.wakes (.readers id.toNat)))
    (ho : ∀ pipe,getObject s id=.pipe pipe → 0<len → allow (.put pipe.opened pipe.len len)) :
    Carried M allow s (sysPipeWrite env id buf len u s) := by
  unfold sysPipeWrite
  split
  · exact carried_same u _
  · split
    · exact carried_same u _
    · rename_i h₁ h₂
      have hl : 0<len := by omega
      split
      · rename_i pipe hg
        have hobj := objects_of_getObject hg (by simp)
        split
        · exact carried_same u _
        · exact stop_done h ha hv (by simp) (by simp) (by simp)
        · rename_i grown hc
          have hnote : Calm M allow s (s.emit (.loaded s.currentProcess buf len.toNat)) :=
            .single (.note _ trivial)
          obtain ⟨hn,hna⟩ := calm_keeps h ha hnote
          have hw : Calm M allow _ _ ∧ _ :=
            wakeAll_calm (q := .readers id.toNat) hn hna (.inl ⟨_,rfl⟩)
              (hr (getObject_bounds (by rw [hg]; simp)).1)
          have hput : Op M allow true (wakeAll (.readers id.toNat)
              (s.emit (.loaded s.currentProcess buf len.toNat))) _ :=
            .putBytes env id.toNat pipe grown buf len
              (by rw [wakeAll_objects_eq]; exact hobj) hl hw.2 hc (ho pipe hg hl)
          have hseq := (hnote.trans hw.1).tail hput
          have he := wakeAll_objects (s := s.emit (.loaded s.currentProcess buf len.toNat))
            (.readers id.toNat) (Function.update s.objects id.toNat
              (.pipe (appendBytes grown env.mem buf len)))
          rw [wakeAll_objects_eq] at hseq
          simp only [Carried]
          simp only [Kernel.emit] at he hseq ⊢
          rw [he]
          exact hseq
      · exact carried_same u _

/-- SysReclaim frees an object that is not in use. -/
theorem sysReclaim_carried (id : ℤ) (u : UserContext)
    (ho : inUse s id.toNat (getObject s id)=false →
      allow (.reclaims id.toNat s.live s.kernelContext)) :
    Carried M allow s (sysReclaim id u s) := by
  unfold sysReclaim
  split
  · exact carried_same u _
  · rename_i hu
    have hf : getObject s id≠.free := by
      intro he
      rw [he] at hu
      exact hu rfl
    rw [Bool.not_eq_true] at hu
    have hal := ho hu
    rw [(getObject_bounds hf).2.2] at hu
    exact .single (.reclaim id.toNat hu hal)

end Objects

section Locks

/-- Releasing a lock of the current process. -/
theorem lockRelease_calm (h : Coherent M s) (ha : Active s) {i : ℕ} {l : LockState}
    (ho : s.objects i=.lock l) (hc : l.owner=s.currentProcess) :
    Calm M allow s (lockRelease i l s) := by
  unfold lockRelease wakeOne
  cases hq : (clearOwner i l s).queue (.lockWaiters i) with
  | nil =>
    dsimp only
    rw [if_neg (by simp)]
    exact .single (.unlock i l ha ho hc hq)
  | cons w rest =>
    have hq' : s.queue (.lockWaiters i)=w::rest := hq
    have hm : w∈s.queue (.lockWaiters i) := by rw [hq']; exact List.mem_cons_self
    have hb := h.block.blocked hm
    have h0 := h.ready.ne_null (h.block.queue_live _ w hm)
    have he := processMakeReady_eq (s := {clearOwner i l s with
      queue := Function.update (clearOwner i l s).queue (.lockWaiters i) rest
      blockQueue := Function.update (clearOwner i l s).blockQueue w none
      userContext := Function.update (clearOwner i l s).userContext w
        (((clearOwner i l s).userContext w).setResult SUCCESS)
      log := (clearOwner i l s).log++[.woken w (.pop (.lockWaiters i))]}) h0
      (h.ready.ne_idle (by rw [hb]; decide)) (show s.state w≠.zombie by rw [hb]; decide)
      (h.ready.unlinked (by rw [hb]; decide))
    dsimp only
    rw [if_pos h0,he]
    have hop : Op M allow true s _ :=
      .handOff i l w rest ((s.userContext w).setResult SUCCESS) ha ho hc hq'
    have hseq := Relation.ReflTransGen.single hop
    simpa only [clearOwner,List.append_assoc,List.singleton_append] using hseq

/-- Taking a lock or waiting for it. -/
theorem lockAcquireLoop_carried (h : Coherent M s) (hb : MayBlock s) (hs : env.switchOk=true)
    (caller : PcbPtr) {id : ℤ} {l : LockState} (ho : getObject s id=.lock l)
    (hn : l.owner≠s.currentProcess) (u : UserContext) :
    Carried M allow s (lockAcquireLoop M env caller id l u s) := by
  unfold lockAcquireLoop
  split
  · rename_i hl
    exact Carried.block h hs (.blockLock id l _ u rfl hb ho hl hn) hb.running
      (by simp [blockOnLock,blockCurrent,Kernel.emit]) hb.unlinked
      (by simp [blockOnLock,blockCurrent,Kernel.emit])
      (.inl (show s.delayUntil s.currentProcess=0 from no_deadline h hb.toActive))
  · rename_i hl
    exact .single (.lockTake id.toNat l hb (objects_of_getObject ho (by simp)) (by simpa using hl))

/-- LockAcquire takes a free lock or blocks on it and schedules. -/
theorem lockAcquire_carried (h : Coherent M s) (ha : Active s) (hs : env.switchOk=true)
    (caller : PcbPtr) (id : ℤ) (u : UserContext) :
    Carried M allow s (lockAcquire M env caller id u s) := by
  unfold lockAcquire
  split
  · rename_i l ho
    split
    · exact carried_same u _
    · rename_i hi
      split
      · exact carried_same u _
      · rename_i hn
        exact lockAcquireLoop_carried h (mayBlock ha hi) hs caller ho hn u
  · exact carried_same u _

/-- SysRelease frees the lock of its caller or hands it on. -/
theorem sysRelease_carried (h : Coherent M s) (ha : Active s) (id : ℤ) (u : UserContext) :
    Carried M allow s (sysRelease id u s) := by
  unfold sysRelease
  split
  · rename_i l ho
    split
    · exact carried_same u _
    · rename_i hc
      exact lockRelease_calm h ha (objects_of_getObject ho (by simp)) (by simpa using hc)
  · exact carried_same u _

/-- SysCvarSignal wakes the first waiter, if there is one. -/
theorem sysCvarSignal_carried (h : Coherent M s) (id : ℤ) (u : UserContext)
    (ho : 0≤ id → allow (.wakes (.cvarWaiters id.toNat))) :
    Carried M allow s (sysCvarSignal id u s) := by
  unfold sysCvarSignal
  split
  · rename_i c hg
    exact wakeOne_calm h (.inr ⟨_,rfl⟩) (ho (getObject_bounds (by rw [hg]; simp)).1)
  · exact carried_same u _

/-- SysCvarBroadcast wakes the waiters one after the other. -/
theorem sysCvarBroadcast_carried (h : Coherent M s) (ha : Active s) (id : ℤ) (u : UserContext)
    (ho : 0≤ id → allow (.wakes (.cvarWaiters id.toNat))) :
    Carried M allow s (sysCvarBroadcast id u s) := by
  unfold sysCvarBroadcast
  split
  · rename_i c hg
    exact (wakeAll_calm h ha (.inr ⟨_,rfl⟩) (ho (getObject_bounds (by rw [hg]; simp)).1)).1
  · exact carried_same u _

/-- A lock hand-over keeps the other objects and the current process. -/
theorem lockRelease_frame (i : ℕ) (l : LockState) :
    (∀ j,j≠i → (lockRelease i l s).objects j=s.objects j) ∧
      (lockRelease i l s).currentProcess=s.currentProcess ∧
      (lockRelease i l s).idleProcess=s.idleProcess := by
  have hw := wakeOne_objects_eq (s := clearOwner i l s) (.lockWaiters i)
  have hc := wakeOne_currentProcess (s := clearOwner i l s) (.lockWaiters i)
  have hi := wakeOne_idleProcess (s := clearOwner i l s) (.lockWaiters i)
  unfold lockRelease
  split
  · refine ⟨fun j hj => ?_,hc,hi⟩
    simp only [grantLock]
    rw [Function.update_of_ne hj,hw]
    simp [clearOwner,Function.update_of_ne hj]
  · refine ⟨fun j hj => ?_,hc,hi⟩
    rw [hw]
    simp [clearOwner,Function.update_of_ne hj]

/-- The new owner of a released lock is null or its first waiter. -/
theorem lockRelease_owner (h : Coherent M s) (ha : Active s) (i : ℕ) (l : LockState) :
    ∃ w,(lockRelease i l s).objects i=.lock {l with owner := w} ∧ w≠s.currentProcess := by
  have hc := h.ready.ne_null h.ready.current_live
  unfold lockRelease
  split
  · refine ⟨_,Function.update_self ..,?_⟩
    unfold wakeOne
    cases hq : (clearOwner i l s).queue (.lockWaiters i) with
    | nil => exact hc.symm
    | cons w rest => exact queued_ne_current h ha hq
  · refine ⟨0,?_,hc.symm⟩
    rw [wakeOne_objects_eq]
    exact Function.update_self ..

/-- SysCvarWait releases the lock, blocks and schedules. -/
theorem sysCvarWait_carried (h : Coherent M s) (ha : Active s) (hs : env.switchOk=true)
    (caller : PcbPtr) (cvarId lockId : ℤ) (u : UserContext) :
    Carried M allow s (sysCvarWait M env caller cvarId lockId u s) := by
  unfold sysCvarWait
  split
  · rename_i cvar l ho hl
    split
    · exact carried_same u _
    · rename_i hc
      have hobj := objects_of_getObject ho (by simp)
      have hlobj := objects_of_getObject hl (by simp)
      have hcur : l.owner=s.currentProcess := by simpa using hc
      have hrel : Calm M allow s (lockRelease lockId.toNat l s) := lockRelease_calm h ha hlobj hcur
      obtain ⟨hrc,hra⟩ := calm_keeps h ha hrel
      obtain ⟨hobjs,hcp,hip⟩ := lockRelease_frame (s := s) lockId.toNat l
      have hne : cvarId.toNat≠lockId.toNat := by
        intro he
        rw [he,hlobj] at hobj
        cases hobj
      have hown := h.owner.owner _ l hlobj
        (by rw [hcur]; exact h.ready.ne_null h.ready.current_live)
      have hmb : MayBlock (lockRelease lockId.toNat l s) := by
        refine ⟨hra,?_⟩
        rw [hcp,hip,← hcur]
        exact hown.2.1
      have hb := getObject_bounds (show getObject s cvarId≠.free by rw [ho]; simp)
      have ho' : getObject (lockRelease lockId.toNat l s) cvarId=.cvar cvar := by
        unfold getObject
        rw [if_neg (by omega),hobjs _ hne]
        exact hobj
      have hlb := getObject_bounds (show getObject s lockId≠.free by rw [hl]; simp)
      obtain ⟨w,hw,hwn⟩ := lockRelease_owner h ha lockId.toNat l
      have hl' : getObject (lockRelease lockId.toNat l s) lockId=.lock {l with owner := w} := by
        unfold getObject
        rw [if_neg (by omega)]
        exact hw
      have hwc : w≠(lockRelease lockId.toNat l s).currentProcess := by
        rw [hcp]
        exact hwn
      exact Carried.after hrel (Carried.block hrc hs
        (.blockCvar cvarId lockId cvar l.opened _ u rfl hmb ho' ⟨_,hl',rfl,hwc⟩) hmb.running
        (by simp [blockOnCvar,blockCurrent,Kernel.emit]) hmb.unlinked
        (by simp [blockOnCvar,blockCurrent,Kernel.emit])
        (.inl (show (lockRelease lockId.toNat l s).delayUntil
          (lockRelease lockId.toNat l s).currentProcess=0 from no_deadline hrc hmb.toActive)))
  · exact carried_same u _

end Locks

section Terminals

/-- A valid terminal number is below the number of terminals. -/
theorem ttyValid_lt {ttyId : ℤ} (h : ¬(ttyValid M ttyId=false)) : ttyId.toNat<M.numTerminals := by
  simp only [ttyValid,decide_eq_false_iff_not,not_not] at h
  omega

/-- The loop of TtyRead of a process without a handed line. -/
theorem ttyReadLoop_carried (h : Coherent M s) (hb : MayBlock s) (hs : env.switchOk=true)
    (caller : PcbPtr) {i : ℕ} (hi : i<M.numTerminals) (u : UserContext) :
    Carried M allow s (ttyReadLoop M env caller i u s) := by
  have hn := no_line h hb.toActive
  unfold ttyReadLoop
  rw [hn]
  dsimp only
  split
  · rename_i line v he
    exact .single (.takeLine i line v hb.toActive he)
  · rename_i v he
    have hl : (s.terminals i).line=none ∧ (s.terminals i).inputQueue=[] := by
      unfold ttyNextLine at he
      cases hl : (s.terminals i).line with
      | some line => rw [hl] at he; cases he
      | none =>
        rw [hl] at he
        cases hq : (s.terminals i).inputQueue with
        | nil => exact ⟨rfl,rfl⟩
        | cons line rest => rw [hq] at he; cases he
    exact Carried.block h hs (.blockRead i _ u rfl hb hi hn hl.1 hl.2) hb.running
      (by simp [blockCurrent]) hb.unlinked (by simp [blockCurrent])
      (.inl (show s.delayUntil s.currentProcess=0 from no_deadline h hb.toActive))

/-- SysTtyRead notes its arguments and enters the loop that takes a line. -/
theorem sysTtyRead_carried (h : Coherent M s) (ha : Active s) (hs : env.switchOk=true)
    (caller : PcbPtr) (ttyId : ℤ) (buf : ℕ) (len : ℤ) (u : UserContext) :
    Carried M allow s (sysTtyRead M env caller ttyId buf len u s) := by
  unfold sysTtyRead
  split
  · exact carried_same u _
  · rename_i hv
    split
    · exact carried_same u _
    · split
      · exact carried_same u _
      · rename_i hi
        have hreq : Calm M allow s _ := .single (.readRequest ttyId.toNat buf len.toNat)
        obtain ⟨hc,hact⟩ := calm_keeps h ha hreq
        exact Carried.after hreq (ttyReadLoop_carried hc (mayBlock hact hi) hs caller
          (ttyValid_lt (fun hf => hv (.inl hf))) u)

/-- The first chunk of a write to an idle terminal starts at once. -/
theorem startWrite_eq {k : KernelContext} {i buf : ℕ} {len : ℤ} {u : UserContext}
    (h0 : s.currentProcess≠0) (hl : 0<len) (hb : (s.terminals i).busy=false) :
    ttyStartWrite M i (becomeWriter i (prepareWrite env k i buf len u s))=
      ttyTransmit M i (becomeWriter i (prepareWrite env k i buf len u s)) := by
  unfold ttyStartWrite startWriteFrom
  rw [if_neg (by simp [becomeWriter,prepareWrite,hb]),
    if_neg (by simpa [becomeWriter,prepareWrite] using h0),
    if_neg (by simp [becomeWriter,prepareWrite]; omega)]

/-- SysTtyWrite starts the first chunk or queues, blocks and schedules. -/
theorem sysTtyWrite_carried (h : Coherent M s) (ha : Active s) (hs : env.switchOk=true)
    (caller : PcbPtr) (ttyId : ℤ) (buf : ℕ) (len : ℤ) (u : UserContext) :
    Carried M allow s (sysTtyWrite M env caller ttyId buf len u s) := by
  unfold sysTtyWrite
  split
  · exact carried_same u _
  · rename_i hv
    split
    · exact carried_same u _
    · rename_i hz
      split
      · exact carried_same u _
      · rename_i hi
        split
        · exact carried_same u _
        · have hmb := mayBlock ha hi
          have ht := ttyValid_lt (M := M) (fun hf => hv (.inl hf))
          have hl : 0<len := by omega
          split
          · rename_i hw
            rw [startWrite_eq (fun he => hi (.inl he)) hl hw.2]
            exact Carried.block h hs
              (.startWrite env ttyId.toNat buf len _ u rfl hmb ht hl hw.1 hw.2) hmb.running
              (by simp [ttyTransmit,becomeWriter,prepareWrite]) hmb.unlinked
              (by simp [ttyTransmit,becomeWriter,prepareWrite])
              (.inl (show s.delayUntil s.currentProcess=0 from no_deadline h ha))
          · rename_i hw
            exact Carried.block h hs (.queueWrite env ttyId.toNat buf len _ u rfl hmb ht hl hw)
              hmb.running (by simp [queueWriter,prepareWrite]) hmb.unlinked
              (by simp [queueWriter,prepareWrite])
              (.inl (show s.delayUntil s.currentProcess=0 from no_deadline h ha))

/-- A received line is queued or handed over by calm operations. -/
theorem trapTtyReceive_calm (h : Coherent M s) (u : UserContext) :
    Calm M allow s (trapTtyReceive M env u s) := by
  unfold trapTtyReceive
  split
  · exact .refl
  · split
    · exact .refl
    · split
      · exact .refl
      · split
        · rename_i r rest hq
          have hm : r∈s.queue (.readQueue u.code.toNat) := by rw [hq]; exact List.mem_cons_self
          have hb := h.block.blocked hm
          unfold deliverLine
          rw [processMakeReady_eq]
          · exact .single (.deliver _ _ r rest ⟨rfl,rfl⟩ hq)
          · exact h.ready.ne_null (h.block.queue_live _ r hm)
          · exact h.ready.ne_idle (by rw [hb]; decide)
          · exact show s.state r≠.zombie by rw [hb]; decide
          · exact h.ready.unlinked (by rw [hb]; decide)
        · rename_i hq
          exact .single (.enqueue _ _ ⟨rfl,rfl⟩ hq)

/-- The completion of a write wakes its writer. -/
theorem completeWriter_eq (h : Coherent M s) {i : ℕ} (hw : (s.terminals i).writer≠0) :
    completeWriter i (transmitDone i s)=releaseWriter i
      ((s.userContext (s.terminals i).writer).setResult
        (s.tty (s.terminals i).writer).writeLen) s := by
  have hb := writer_blocked h hw
  unfold completeWriter finishWriter
  rw [processMakeReady_eq (by simpa [transmitDone,Kernel.setUserContext] using hw)
    (by
      simp only [transmitDone,Kernel.setUserContext,Function.update_self]
      exact h.ready.ne_idle (by rw [hb]; decide))
    (by
      simp only [transmitDone,Kernel.setUserContext,Function.update_self]
      rw [hb]
      decide)
    (by
      simp only [transmitDone,Kernel.setUserContext,Function.update_self]
      exact h.ready.unlinked (by rw [hb]; decide))]
  simp [releaseWriter,transmitDone,Kernel.setUserContext,markReady]

/-- A completed transmission wakes writers and starts chunks by calm operations. -/
theorem trapTtyTransmit_calm (h : Coherent M s) (u : UserContext)
    (ho : ttyValid M u.code=true → allow (.completes u.code.toNat s.log)) :
    Calm M allow s (trapTtyTransmit M u s) := by
  unfold trapTtyTransmit
  split
  · exact .refl
  · rename_i hvalid
    have hal := ho (by simpa using hvalid)
    split
    · rename_i hw
      have hq : s.queue (.writeQueue u.code.toNat)=[] := by
        by_contra hne
        exact h.writer.queued _ hne hw
      have he : ttyStartWrite M u.code.toNat (transmitDone u.code.toNat s)=
          transmitDone u.code.toNat s := by
        unfold ttyStartWrite startWriteFrom
        rw [if_neg (by simp [transmitDone]),if_pos (by simpa [transmitDone] using hw)]
        simp [transmitDone,hq]
      rw [he]
      exact .single (.transmitSpurious _ hw hal)
    · rename_i hw
      split
      · rename_i hf
        rw [completeWriter_eq h hw]
        unfold ttyStartWrite startWriteFrom
        rw [if_neg (by simp [releaseWriter,markReady]),if_pos (by simp [releaseWriter,markReady])]
        cases hq : s.queue (.writeQueue u.code.toNat) with
        | nil =>
          simp only [releaseWriter,markReady,hq]
          exact .single (.transmitLast _ _ hw hf hq hal)
        | cons w rest =>
          have hp := h.writer.pending _ w (by rw [hq]; exact List.mem_cons_self)
          have hn : ¬((s.tty w).writeLen≤(s.tty w).writeOffset) := by omega
          have hop : Op M allow true s _ := .transmitNext u.code.toNat
            ((s.userContext (s.terminals u.code.toNat).writer).setResult
              (s.tty (s.terminals u.code.toNat).writer).writeLen) w rest hw hf hq hal
          have hq' : (releaseWriter u.code.toNat
              ((s.userContext (s.terminals u.code.toNat).writer).setResult
                (s.tty (s.terminals u.code.toNat).writer).writeLen) s).queue
              (.writeQueue u.code.toNat)=w::rest := hq
          rw [hq']
          dsimp only
          split
          · rename_i hle
            exact absurd hle hn
          · exact .single hop
      · rename_i hf
        have he : ttyStartWrite M u.code.toNat (transmitDone u.code.toNat s)=
            ttyTransmit M u.code.toNat (transmitDone u.code.toNat s) := by
          unfold ttyStartWrite startWriteFrom
          rw [if_neg (by simp [transmitDone]),if_neg (by simpa [transmitDone] using hw),
            if_neg (by simpa [transmitDone] using hf)]
        rw [he]
        exact .single (.transmitMore _ hw (by omega) hal)

end Terminals

section Processes

/-- ProcessCreateChild fails, undoes the child, or has entered it. -/
theorem processCreateChild_cases (M : Machine) (env : Env) (s : Kernel) (p : PcbPtr) :
    (∃ m,processCreateChild M env p s=({s with memory := m},none)) ∨
      ∃ child pfns pt m₁ m,callocPcb env s=some child ∧
        processAllocKernelStack M s.memory=(m₁,some pfns) ∧ env.newPid≠ERROR ∧
        processCopyRegion1 M m₁ (s.space p).region1Pt=(m,some pt) ∧
        processCreateChild M env p s=(enterChild M p child env.newPid pfns pt m s,some child) := by
  unfold processCreateChild createChildRun
  split
  · exact .inl ⟨s.memory,rfl⟩
  · rename_i child hc
    split
    · rename_i m hk
      exact .inl ⟨m,rfl⟩
    · rename_i m₁ pfns hk
      split
      · exact .inl ⟨_,rfl⟩
      · rename_i hn
        split
        · exact .inl ⟨_,rfl⟩
        · rename_i m pt hp
          exact .inr ⟨child,pfns,pt,m₁,m,hc,hk,hn,hp,rfl⟩

/-- SysFork creates a child and copies its caller, or undoes the child. -/
theorem sysFork_carried (h : Coherent M s) (ha : Active s) (caller : PcbPtr) (u : UserContext)
    (hv : allow (.space env)) (hf : allow (.copies s.memory (s.space s.currentProcess).region1Pt)) :
    Carried M allow s (sysFork M env caller u s) := by
  unfold sysFork
  split
  · exact carried_same u _
  · rename_i hi
    split
    · exact stop_done h ha hv (by simp) (by simp) (by simp)
    · rcases processCreateChild_cases M env s s.currentProcess with
        ⟨m,he⟩|⟨c,pfns,pt,m₁,m,hc,hk,hn,hp,he⟩
      · rw [he]
        exact .single (.forkFails env m ha he hf)
      · rw [he]
        dsimp only
        obtain ⟨h0,hl⟩ := callocPcb_fresh hc
        have hne := dead_ne_current h hl
        split
        · unfold sysForkReturn
          split
          · rename_i hcur
            exact absurd hcur.symm hne
          rw [processMakeReady_eq]
          · have hop : Op M allow true s _ := .spawn env caller c pfns pt m₁ m
              (((enterChild M s.currentProcess c env.newPid pfns pt m s).userContext c).setResult 0)
              (mayBlock ha hi) hc hk hn hp
            have hseq := Relation.ReflTransGen.single hop
            simpa [Carried,enterChild,Kernel.setUserContext,Function.update_of_ne hne.symm]
              using hseq
          · exact h0
          · intro hidle
            rw [show c=s.idleProcess from hidle,h.ready.idle_live] at hl
            cases hl
          · simp [kcCopy,enterChild,Kernel.setUserContext,Kernel.emit]
          · exact dead_unlinked h hl
        · exact .single (.forkUndone env c pfns pt m₁ m _ ha hc hk hp)

/-- The loop of Wait, called or resumed, reports a child or blocks. -/
theorem waitLoop_carried (h : Coherent M s) (hb : MayBlock s) (hs : env.switchOk=true)
    (caller : PcbPtr) (statusPtr : ℕ) (u : UserContext) :
    Carried M allow s (waitLoop M env caller statusPtr u s) := by
  unfold waitLoop
  split
  · rename_i c hc
    have hz := List.find?_some hc
    exact .single (.collect statusPtr c hb.toActive (List.mem_of_find?_eq_some hc)
      (by simpa using hz))
  · rename_i hn
    split
    · exact carried_same u _
    · rename_i hne
      refine Carried.block h hs (.blockChild statusPtr _ u rfl hb (by simpa using hne) ?_)
        hb.running (by simp [blockForChild]) hb.unlinked (by simp [blockForChild])
        (.inl (show s.delayUntil s.currentProcess=0 from no_deadline h hb.toActive))
      intro c hc hz
      have := List.find?_eq_none.1 hn c hc
      simp [hz] at this

/-- SysWait notes that its caller waits and enters the loop over children. -/
theorem sysWait_carried (h : Coherent M s) (ha : Active s) (hs : env.switchOk=true)
    (caller : PcbPtr) (statusPtr : ℕ) (u : UserContext) :
    Carried M allow s (sysWait M env caller statusPtr u s) := by
  unfold sysWait
  split
  · exact carried_same u _
  · rename_i hi
    exact waitLoop_carried h (mayBlock ha hi) hs caller statusPtr u

/-- A sleeper other than idle would be due at once and be picked again: nobody
is ready, and nobody before it in the table is due. -/
def SleepsInPast (M : Machine) (s : Kernel) (ticks : ℤ) : Prop :=
  s.currentProcess≠s.idleProcess ∧ s.readyQueue=[] ∧ delayDeadline s ticks≠0 ∧
    delayDeadline s ticks≤ s.clockTicks ∧ ∃ i<M.maxProcs,s.processTable i=s.currentProcess ∧
      ∀ j< i,¬DelayOver s (s.processTable j)

/-- When a Delay call resumes at once. -/
theorem sleepsInPast_of_repicked (hb : MayBlock s) {ticks : ℤ}
    {k : KernelContext} {u : UserContext}
    (hc : Coherent M (blockForDelay (delayDeadline s ticks) k u s))
    (hr : Repicked M (blockForDelay (delayDeadline s ticks) k u s)) :
    SleepsInPast M s ticks := by
  obtain ⟨hq,hcase⟩ := repicked_cases hc hb.unlinked hr
  rcases hcase with ⟨hrun,_⟩|⟨i,hi,hti,ho,hmin⟩
  · simp [blockForDelay] at hrun
  · have hd : delayDeadline s ticks≠0 ∧ delayDeadline s ticks≤ s.clockTicks := by
      obtain ⟨_,_,h₁,h₂⟩ := ho
      simp only [blockForDelay,Function.update_self] at h₁ h₂
      exact ⟨h₁,h₂⟩
    refine ⟨hb.notIdle,hq,hd.1,hd.2,i,hi,hti,fun j hj ho' => hmin j hj ?_⟩
    have hne : s.processTable j≠s.currentProcess := by
      intro he
      exact hb.toRunnable.not_blocked (he ▸ ho'.2.1)
    obtain ⟨h₀,h₁,h₂,h₃⟩ := ho'
    refine ⟨h₀,?_,?_,?_⟩
    · simpa [blockForDelay,Function.update_of_ne hne] using h₁
    · simpa [blockForDelay,Function.update_of_ne hne] using h₂
    · simpa [blockForDelay,Function.update_of_ne hne] using h₃

/-- SysDelay sets the deadline, blocks and schedules. -/
theorem sysDelay_carried (h : Coherent M s) (ha : Active s) (hs : env.switchOk=true)
    (caller : PcbPtr) {ticks : ℤ} (ht : ticks<2^31) (u : UserContext)
    (ho : 0<ticks → SleepsInPast M s ticks → allow .repick) :
    Carried M allow s (sysDelay M env caller ticks u s) := by
  unfold sysDelay
  split
  · exact carried_same u _
  · split
    · exact carried_same u _
    · split
      · exact carried_same u _
      · rename_i h₁ h₂ hi
        have hb := mayBlock ha hi
        have hop : Op M allow false s (blockForDelay (delayDeadline s ticks) ⟨caller,.delay⟩ u s) :=
          .blockDelay ticks _ u rfl hb (by omega) ht
        refine Carried.schedule h hs hop hb.running (by simp [blockForDelay]) (fun hr => ?_)
        exact ho (by omega) (sleepsInPast_of_repicked hb (op_coherent h hop) hr)

/-- SysBrk changes the pages of its caller or nothing. -/
theorem sysBrk_carried (ha : Active s) (hv : allow (.space env)) (addr : ℕ) (u : UserContext) :
    Carried M allow s (sysBrk M addr u s) := by
  unfold sysBrk
  split
  · exact carried_same u _
  · exact .single (.respace env _ _ (.brk addr) ha hv)

/-- SysGetPid changes nothing. -/
theorem sysGetPid_carried (u : UserContext) : Carried M allow s (sysGetPid u s) := by
  unfold sysGetPid
  split
  · exact carried_same u _
  · exact carried_same u _

end Processes

section Exit

/-- Orphaning all children of the current process. -/
theorem orphanChildren_calm (h : Coherent M s) (ha : Active s) {l : List PcbPtr}
    (hl : s.children s.currentProcess=l) (ho : ∀ c∈l,allow (.orphan (s.state c))) :
    Calm M allow s (orphanChildren s.currentProcess l s) ∧
      (orphanChildren s.currentProcess l s).children s.currentProcess=[] := by
  induction l generalizing s with
  | nil => exact ⟨.refl,hl⟩
  | cons c rest ih =>
    have hop : Op M allow true s _ := .orphan c rest ha hl (ho c List.mem_cons_self)
    have hi := ih (op_coherent h hop) (op_active h ha hop) (Function.update_self ..)
      (fun x hx => ho x (List.mem_cons_of_mem c hx))
    exact ⟨hi.1.head hop,hi.2⟩

/-- Orphaning others leaves a process its parent. -/
theorem orphanChildren_parent {p q : PcbPtr} {l : List PcbPtr} (h : q∉l) :
    (orphanChildren p l s).parent q=s.parent q := by
  induction l generalizing s with
  | nil => rfl
  | cons c rest ih =>
    rw [List.mem_cons,not_or] at h
    dsimp only [orphanChildren]
    rw [ih h.2]
    exact Function.update_of_ne h.1 ..

/-- Orphaning keeps everything but the families. -/
theorem orphanChildren_frame (p : PcbPtr) (l : List PcbPtr) :
    ∃ ch pa,orphanChildren p l s={s with children := ch, parent := pa} := by
  induction l generalizing s with
  | nil => exact ⟨s.children,s.parent,rfl⟩
  | cons c rest ih => exact ih (s := {s with
      children := Function.update s.children p rest
      parent := Function.update s.parent c 0})

/-- Orphaning does not look at memory. -/
theorem orphanChildren_memory (p : PcbPtr) (l : List PcbPtr) (m : Memory)
    (v : PcbPtr → UserSpace) :
    orphanChildren p l {s with memory := m, space := v}=
      {orphanChildren p l s with memory := m, space := v} := by
  induction l generalizing s with
  | nil => rfl
  | cons c rest ih => exact ih (s := {s with
      children := Function.update s.children p rest
      parent := Function.update s.parent c 0})

/-- Releasing a lock does not look at memory. -/
theorem lockRelease_memory (i : ℕ) (l : LockState) (m : Memory) (v : PcbPtr → UserSpace) :
    lockRelease i l {s with memory := m, space := v}=
      {lockRelease i l s with memory := m, space := v} := by
  unfold lockRelease wakeOne clearOwner
  dsimp only
  cases hq : s.queue (.lockWaiters i) with
  | nil => rfl
  | cons w rest =>
    unfold processMakeReady
    dsimp only
    split
    · split
      · rfl
      · split <;> rfl
    · split
      · rfl
      · split <;> rfl

/-- Releasing a lock keeps memory and families. -/
theorem lockRelease_kept (i : ℕ) (l : LockState) :
    (lockRelease i l s).memory=s.memory ∧ (lockRelease i l s).space=s.space ∧
      (lockRelease i l s).children=s.children ∧ (lockRelease i l s).initProcess=s.initProcess ∧
      (lockRelease i l s).parent=s.parent := by
  unfold lockRelease wakeOne clearOwner
  dsimp only
  cases hq : s.queue (.lockWaiters i) with
  | nil => exact ⟨rfl,rfl,rfl,rfl,rfl⟩
  | cons w rest =>
    unfold processMakeReady
    dsimp only
    split
    · split
      · exact ⟨rfl,rfl,rfl,rfl,rfl⟩
      · split <;> exact ⟨rfl,rfl,rfl,rfl,rfl⟩
    · split
      · exact ⟨rfl,rfl,rfl,rfl,rfl⟩
      · split <;> exact ⟨rfl,rfl,rfl,rfl,rfl⟩

/-- What the release loop at exit keeps. -/
structure ExitFrame (s t : Kernel) : Prop where
  /-- The process stays current. -/
  current : t.currentProcess=s.currentProcess
  /-- The idle process is the same one. -/
  idle : t.idleProcess=s.idleProcess
  /-- The initial process stays. -/
  init : t.initProcess=s.initProcess
  /-- The frames and the tables of the kernel are untouched. -/
  memory : t.memory=s.memory
  /-- Address spaces are untouched. -/
  space : t.space=s.space
  /-- The lists of children are untouched. -/
  children : t.children=s.children
  /-- The links to the parents are untouched. -/
  parent : t.parent=s.parent

/-- One round of the release loop. -/
theorem releaseIfOwned_calm (h : Coherent M s) (ha : Active s) (i : ℕ) :
    Calm M allow s (releaseIfOwned s.currentProcess s i) ∧
      ExitFrame s (releaseIfOwned s.currentProcess s i) ∧
      ∀ j l,(releaseIfOwned s.currentProcess s i).objects j=.lock l →
        l.owner=s.currentProcess → j≠i ∧ s.objects j=.lock l := by
  unfold releaseIfOwned
  split
  · rename_i l ho
    split
    · rename_i hc
      obtain ⟨hobj,hcp,hip⟩ := lockRelease_frame (s := s) i l
      obtain ⟨hm,hsp,hch,hin,hpa⟩ := lockRelease_kept (s := s) i l
      obtain ⟨w,hw,hne⟩ := lockRelease_owner h ha i l
      refine ⟨lockRelease_calm h ha ho hc,⟨hcp,hip,hin,hm,hsp,hch,hpa⟩,fun j l' hj hl => ?_⟩
      have hji : j≠i := by
        rintro rfl
        rw [hw] at hj
        injection hj with hj
        subst hj
        exact hne hl
      exact ⟨hji,by rw [← hobj j hji]; exact hj⟩
    · rename_i hc
      refine ⟨.refl,⟨rfl,rfl,rfl,rfl,rfl,rfl,rfl⟩,fun j l' hj hl => ⟨?_,hj⟩⟩
      rintro rfl
      rw [ho] at hj
      injection hj with hj
      subst hj
      exact hc hl
  · rename_i hn
    refine ⟨.refl,⟨rfl,rfl,rfl,rfl,rfl,rfl,rfl⟩,fun j l' hj hl => ⟨?_,hj⟩⟩
    rintro rfl
    exact hn l' hj

/-- The loop over the objects releases locks by calm operations. -/
theorem releaseLoop_calm (h : Coherent M s) (ha : Active s) (l : List ℕ) :
    Calm M allow s (l.foldl (releaseIfOwned s.currentProcess) s) ∧
      ExitFrame s (l.foldl (releaseIfOwned s.currentProcess) s) ∧
      ∀ j k,(l.foldl (releaseIfOwned s.currentProcess) s).objects j=.lock k →
        k.owner=s.currentProcess → j∉l ∧ s.objects j=.lock k := by
  induction l generalizing s with
  | nil => exact ⟨.refl,⟨rfl,rfl,rfl,rfl,rfl,rfl,rfl⟩,fun j k hj _ => ⟨by simp,hj⟩⟩
  | cons i rest ih =>
    have hr : Calm M allow s _ ∧ _ := releaseIfOwned_calm h ha i
    obtain ⟨hcalm,hf,hown⟩ := hr
    obtain ⟨hc,hact⟩ := calm_keeps h ha hcalm
    have hi := ih hc hact
    rw [hf.current] at hi
    obtain ⟨hcalm',hf',hown'⟩ := hi
    rw [List.foldl_cons]
    refine ⟨hcalm.trans hcalm',⟨hf'.current.trans hf.current,hf'.idle.trans hf.idle,
      hf'.init.trans hf.init,hf'.memory.trans hf.memory,hf'.space.trans hf.space,
      hf'.children.trans hf.children,hf'.parent.trans hf.parent⟩,fun j k hj hk => ?_⟩
    obtain ⟨h₁,h₂⟩ := hown' j k hj hk
    obtain ⟨h₃,h₄⟩ := hown j k h₂ hk
    exact ⟨by simp [h₁,h₃],h₄⟩

/-- The release loop does not look at memory. -/
theorem releaseLoop_memory (p : PcbPtr) (l : List ℕ) (m : Memory) (v : PcbPtr → UserSpace) :
    l.foldl (releaseIfOwned p) {s with memory := m, space := v}=
      {l.foldl (releaseIfOwned p) s with memory := m, space := v} := by
  induction l generalizing s with
  | nil => rfl
  | cons i rest ih =>
    have he : releaseIfOwned p {s with memory := m, space := v} i=
        {releaseIfOwned p s i with memory := m, space := v} := by
      unfold releaseIfOwned
      dsimp only
      split
      · split
        · exact lockRelease_memory i _ m v
        · rfl
      · rfl
    rw [List.foldl_cons,List.foldl_cons,he,ih]

/-- Becoming a zombie, with what is left of the address space. -/
theorem becomeZombie_op (h : Coherent M s) (hb : MayBlock s) {k : KernelContext} {m : Memory}
    {v : UserSpace} (status : ℤ) (hk : k.point=.exited) (hc : s.children s.currentProcess=[])
    (hl : ∀ i l,s.objects i=.lock l → l.owner≠s.currentProcess) (hv : allow (.space env))
    (hn : allow (.ends (s.parent s.currentProcess)))
    (he : SpaceEnd M env (s.currentProcess=s.idleProcess) s.memory (s.space s.currentProcess) m v) :
    Op M allow false s (becomeZombie status k {s with
      memory := m
      space := Function.update s.space s.currentProcess v}) := by
  unfold becomeZombie
  dsimp only
  split
  · rename_i hp
    have hlive := (h.family.parent_child _ h.ready.current_live hp.1).1
    have hst := h.block.reasons.blocked _ .child hlive hp.2
    have hne := blocked_ne_current hb.toActive hst
    rw [processMakeReady_eq]
    · exact .zombieWake status k env m v hk hb hc hl hp.1 hp.2 he hv hn
    · exact hp.1
    · exact h.ready.ne_idle (by rw [hst]; decide)
    · dsimp only
      rw [Function.update_of_ne hne,hst]
      decide
    · exact h.ready.unlinked (by rw [hst]; decide)
  · rename_i hp
    refine .zombie status k env m v hk hb hc hl ?_ he hv hn
    by_cases h0 : s.parent s.currentProcess=0
    · exact .inl h0
    · exact .inr (by simpa [h0] using hp)

/-- A zombie has its kernel stack saved. -/
theorem becomeZombie_frame (status : ℤ) (k : KernelContext) :
    (becomeZombie status k s).currentProcess=s.currentProcess ∧
      (becomeZombie status k s).kernelContext s.currentProcess=k ∧
      (becomeZombie status k s).cpu=s.cpu := by
  unfold becomeZombie processMakeReady
  dsimp only
  split
  · split
    · exact ⟨rfl,Function.update_self ..,rfl⟩
    · split <;> exact ⟨rfl,Function.update_self ..,rfl⟩
  · exact ⟨rfl,Function.update_self ..,rfl⟩

/-- A new zombie is not linked. -/
theorem becomeZombie_state (h : Coherent M s) (hb : MayBlock s) {m : Memory}
    {v : PcbPtr → UserSpace} (status : ℤ) (k : KernelContext) :
    (becomeZombie status k {s with memory := m, space := v}).state
        (becomeZombie status k {s with memory := m, space := v}).currentProcess=.zombie ∧
      (becomeZombie status k {s with memory := m, space := v}).currentProcess∉
        (becomeZombie status k {s with memory := m, space := v}).readyQueue := by
  have hu := hb.unlinked
  unfold becomeZombie
  dsimp only
  split
  · rename_i hp
    have hlive := (h.family.parent_child _ h.ready.current_live hp.1).1
    have hst := h.block.reasons.blocked _ .child hlive hp.2
    have hne := blocked_ne_current hb.toActive hst
    unfold processMakeReady
    dsimp only
    split
    · exact ⟨Function.update_self ..,hu⟩
    · split
      · exact ⟨by dsimp only; rw [Function.update_of_ne hne.symm,Function.update_self],hu⟩
      · refine ⟨by dsimp only; rw [Function.update_of_ne hne.symm,Function.update_self],?_⟩
        simp only [List.mem_append,List.mem_singleton]
        rintro (hm|he)
        · exact hu hm
        · exact hne he.symm
  · exact ⟨Function.update_self ..,hu⟩

/-- The current process becomes a zombie and leaves. -/
theorem zombie_done (h : Coherent M s) (hb : MayBlock s) (hs : env.switchOk=true)
    (hv : allow (.space env)) {k : KernelContext} {m : Memory} {v : UserSpace} (status : ℤ)
    (hk : k.point=.exited) (hc : s.children s.currentProcess=[])
    (hl : ∀ i l,s.objects i=.lock l → l.owner≠s.currentProcess)
    (hn : allow (.ends (s.parent s.currentProcess)))
    (he : SpaceEnd M env (s.currentProcess=s.idleProcess) s.memory (s.space s.currentProcess) m v) :
    Carried M allow s (.leaves (processSchedule M env (becomeZombie status k {s with
      memory := m
      space := Function.update s.space s.currentProcess v}))) := by
  obtain ⟨hbc,hbk,hbp⟩ := becomeZombie_frame (s := {s with
    memory := m
    space := Function.update s.space s.currentProcess v}) status k
  obtain ⟨hst,hun⟩ := becomeZombie_state (m := m) (v := Function.update s.space s.currentProcess v)
    h hb status k
  refine Carried.block h hs (becomeZombie_op h hb status hk hc hl hv hn he) ?_ ?_ ?_ ?_ ?_
  · rw [hbp]
    exact hb.running
  · rw [hbc,hbk,hk]
    simp
  · exact hun
  · rw [hst]
    decide
  · exact .inr hst

/-- The labels of an exit. -/
def ExitAllowed (allow : Label → Prop) (s : Kernel) : Prop :=
  s.currentProcess≠s.idleProcess → s.currentProcess≠s.initProcess →
    allow (.ends (s.parent s.currentProcess)) ∧
      ∀ c∈s.children s.currentProcess,allow (.orphan (s.state c))

/-- Exit, with what is left of the address space. -/
theorem processExitCurrent_done (h : Coherent M s) (ha : Active s) (hs : env.switchOk=true)
    (hv : allow (.space env)) (hx : ExitAllowed allow s) (status : ℤ) {m : Memory} {v : UserSpace}
    (he : SpaceEnd M env (s.currentProcess=s.idleProcess) s.memory (s.space s.currentProcess) m v) :
    Carried M allow s (.leaves (processExitCurrent M env status {s with
      memory := m
      space := Function.update s.space s.currentProcess v})) := by
  unfold processExitCurrent
  dsimp only
  split
  · exact ⟨.single ⟨false,.stop _ env m v ha (by simp) (by simp) (by simp) he hv⟩,
      {h with},ha.unlinked,fun hu => (by cases hu),fun hk => (by cases hk)⟩
  · rename_i hi
    split
    · exact ⟨.single ⟨false,.stop _ env m v ha (by simp) (by simp) (by simp) he hv⟩,
        {h with},ha.unlinked,fun hu => (by cases hu),fun hk => (by cases hk)⟩
    · rename_i hinit
      obtain ⟨hends,horphan⟩ := hx (fun he => hi (.inr he)) hinit
      have ho : Calm M allow s _ ∧ _ := orphanChildren_calm h ha rfl horphan
      obtain ⟨ch,pa,hfr⟩ := orphanChildren_frame (s := s) s.currentProcess
        (s.children s.currentProcess)
      obtain ⟨hoc,hoa⟩ := calm_keeps h ha ho.1
      have hcur : (orphanChildren s.currentProcess (s.children s.currentProcess) s).currentProcess=
          s.currentProcess := by rw [hfr]
      have hr : Calm M allow _ _ ∧ _ := releaseLoop_calm hoc hoa (List.range IPC_MAX_OBJECTS)
      rw [hcur] at hr
      obtain ⟨hrel,hf,hown⟩ := hr
      obtain ⟨hrc,hra⟩ := calm_keeps hoc hoa hrel
      rw [orphanChildren_memory]
      unfold ipcProcessExit leaveZombie
      rw [if_pos hs]
      rw [releaseLoop_memory]
      refine Carried.after (ho.1.trans hrel) ?_
      generalize (List.range IPC_MAX_OBJECTS).foldl (releaseIfOwned s.currentProcess)
        (orphanChildren s.currentProcess (s.children s.currentProcess) s)=z at *
      have hzc : z.currentProcess=s.currentProcess := hf.current.trans hcur
      have hzm : z.memory=s.memory := hf.memory.trans (by rw [hfr])
      have hzs : z.space=s.space := hf.space.trans (by rw [hfr])
      have hzi : z.idleProcess=s.idleProcess := hf.idle.trans (by rw [hfr])
      have hmb : MayBlock z := ⟨hra,by rw [hzc,hzi]; exact fun he => hi (.inr he)⟩
      have hsp : Function.update z.space z.currentProcess v=
          Function.update s.space s.currentProcess v := by rw [hzc,hzs]
      have hzp : z.parent z.currentProcess=s.parent s.currentProcess := by
        rw [hzc,hf.parent]
        exact orphanChildren_parent (h.family.irrefl _ h.ready.current_live)
      rw [← hsp]
      refine zombie_done hrc hmb hs hv status rfl ?_ ?_ (by rw [hzp]; exact hends) ?_
      · rw [hzc,hf.children]
        exact ho.2
      · intro i l hl hc
        rw [hzc] at hc
        have hlt := hrc.owner.lt (i := i) (by rw [hl]; simp)
        exact (hown i l hl hc).1 (List.mem_range.2 hlt)
      · rw [hzc,hzi,hzm,hzs]
        exact he

/-- Exit of a process with its whole address space. -/
theorem exit_done (h : Coherent M s) (ha : Active s) (hs : env.switchOk=true)
    (hv : allow (.space env)) (hx : ExitAllowed allow s) (status : ℤ) :
    Carried M allow s (.leaves (processExitCurrent M env status s)) := by
  have hd := processExitCurrent_done h ha hs hv hx status .kept
  rwa [Function.update_eq_self] at hd

end Exit

section Steps

/-- Exec tears the image down and cannot complete the new one. -/
def ExecKills (M : Machine) (env : Env) (filename argvec : ℕ) (s : Kernel) : Prop :=
  ∃ args blocks m v,copyExecArgs env filename argvec=.copied args blocks ∧
    loadProgram M env args (2+args.length) s.memory (s.space s.currentProcess)=.kill m v

/-- Exec has mapped the new image, and filling it stops the kernel. -/
def ExecFaults (M : Machine) (env : Env) (filename argvec : ℕ) (s : Kernel) : Prop :=
  ∃ args blocks m v,copyExecArgs env filename argvec=.copied args blocks ∧
    loadProgram M env args (2+args.length) s.memory (s.space s.currentProcess)=.fault m v

/-- The loads of Exec are recorded. -/
theorem noteLoads_calm (l : List (ℕ × ℕ)) (s : Kernel) : Calm M allow s (noteLoads l s) := by
  induction l generalizing s with
  | nil =>
    have he : noteLoads [] s=s := by
      unfold noteLoads
      rw [List.map_nil,List.append_nil]
    exact Eq.subst (motive := fun t => Calm M allow s t) he.symm .refl
  | cons a l ih =>
    have he : noteLoads (a::l) s=noteLoads l (s.emit (.loaded s.currentProcess a.1 a.2)) := by
      unfold noteLoads Kernel.emit
      rw [List.map_cons,List.append_assoc,List.singleton_append]
    rw [he]
    exact (Relation.ReflTransGen.single (.note _ trivial)).trans (ih _)

/-- Exec behind its check of the caller. -/
theorem execImage_carried (h : Coherent M s) (ha : Active s) (hs : env.switchOk=true)
    (hv : allow (.space env)) (filename argvec : ℕ) (u : UserContext)
    (hne : ¬(s.currentProcess=s.idleProcess))
    (hx : ExecKills M env filename argvec s → ExitAllowed allow s) :
    Carried M allow s (execImage M env filename argvec u s) := by
  unfold execImage
  split
  · exact .single (.note _ trivial)
  · rename_i args blocks hcopy
    split
    · exact .single (.note _ trivial)
    · rename_i m v hl
      have hnote : Calm M allow s _ := .single (.note (execLedger blocks
        (loadLedger M env args (2+args.length) s.memory (s.space s.currentProcess))) trivial)
      obtain ⟨hc,hact⟩ := calm_keeps h ha hnote
      exact Carried.after hnote (processExitCurrent_done hc hact hs hv
        (hx ⟨args,blocks,m,v,hcopy,hl⟩) ERROR (.exec hne hl))
    · rename_i m v hl
      have hnote : Calm M allow s _ := .single (.note (.execLedger
        (loadLedger M env args (2+args.length) s.memory (s.space s.currentProcess)).opened
        (loadLedger M env args (2+args.length) s.memory (s.space s.currentProcess)).closed
        (blocks++(loadLedger M env args (2+args.length) s.memory
          (s.space s.currentProcess)).allocated)
        (loadLedger M env args (2+args.length) s.memory (s.space s.currentProcess)).freed) trivial)
      obtain ⟨hc,hact⟩ := calm_keeps h ha hnote
      exact Carried.after hnote ⟨.single ⟨false,.stop .faulted env m v hact (by simp) (by simp)
        (by simp) (.fault hne hl) hv⟩,{hc with},hact.unlinked,fun hu => (by cases hu),
        fun hk => (by cases hk)⟩
    · rename_i m v pc sp hl
      have hstep : Op M allow true s {s with
          memory := m
          space := Function.update s.space s.currentProcess v} :=
        .respace env m v (.exec hne hl) ha hv
      exact ((Relation.ReflTransGen.single hstep).tail (.context s.currentProcess
        {s.userContext s.currentProcess with pc := pc, sp := sp.toNat})).tail (.note _ trivial)

/-- SysExec replaces the image of its caller, or ends it. -/
theorem sysExec_carried (h : Coherent M s) (ha : Active s) (hs : env.switchOk=true)
    (hv : allow (.space env)) (filename argvec : ℕ) (u : UserContext)
    (hx : ExecKills M env filename argvec s → ExitAllowed allow s) :
    Carried M allow s (sysExec M env filename argvec u s) := by
  unfold sysExec
  split
  · exact carried_same u _
  · rename_i hi
    have hnote : Calm M allow s (noteLoads (execLoads env filename argvec) s) :=
      noteLoads_calm _ s
    obtain ⟨hc,hact⟩ := calm_keeps h ha hnote
    exact Carried.after hnote (execImage_carried hc hact hs hv filename argvec u
      (fun he => hi (.inr he)) hx)

/-- A register holds a C int. -/
theorem int_lt (u : UserContext) (i : Fin 8) : u.int i<2^31 := by
  have := (u.regs i).toInt_lt
  unfold UserContext.int
  omega

/-- The trap, taken in this state, ends with the scheduler picking the process
that is already running: a tick with nobody else ready or due, or a delay
whose deadline, wrapped around, has passed. -/
def Repicks (M : Machine) (s : Kernel) : Input → Prop
  | .trap u =>
    (u.vector=.clock ∧ s.currentProcess≠s.idleProcess ∧ s.state s.currentProcess=.running ∧
        s.readyQueue=[] ∧ ∀ i<M.maxProcs,¬DelayOver (tickClock s) (s.processTable i)) ∨
      (u.vector=.kernel ∧ M.syscallOf u.code=.delay ∧ 0<u.int 0 ∧ SleepsInPast M s (u.int 0))
  | .resume => False

/-- The step ends the current process: an exception, a fault that the stack
cannot grow to, Exit, or an Exec that fails behind the tear-down. -/
def Ends (M : Machine) (env : Env) (s : Kernel) : Input → Prop
  | .trap u => s.currentProcess≠s.idleProcess ∧ s.currentProcess≠s.initProcess ∧
      (u.vector=.illegal ∨ u.vector=.math ∨
        (u.vector=.memory ∧
          (growStack M s.memory (s.space s.currentProcess) u.addr).2.2=false) ∨
        (u.vector=.kernel ∧ (M.syscallOf u.code=.exit ∨
          (M.syscallOf u.code=.exec ∧ ExecKills M env (u.ptr 0) (u.ptr 1) s))))
  | .resume => False

/-- The queue a call wakes. -/
def Wakes (M : Machine) (u : UserContext) : QueueAddr → Prop
  | .readers i => M.syscallOf u.code=.pipeWrite ∧ u.int 0=i
  | .cvarWaiters i =>
    (M.syscallOf u.code=.cvarSignal ∨ M.syscallOf u.code=.cvarBroadcast) ∧ u.int 0=i
  | _ => False

/-- The labels of a step, read off the state before it. -/
inductive Uses (M : Machine) (s : Kernel) (env : Env) : Input → Label → Prop
  /-- Changes of address spaces. -/
  | space (input : Input) : Uses M s env input (.space env)
  /-- A write to a pipe. -/
  | put (u : UserContext) (pipe : PipeState) (hv : u.vector=.kernel)
      (hc : M.syscallOf u.code=.pipeWrite) (ho : getObject s (u.int 0)=.pipe pipe)
      (hl : 0<u.int 2) : Uses M s env (.trap u) (.put pipe.opened pipe.len (u.int 2))
  /-- A reader that resumes with a handed line. -/
  | handed (t : ℕ) (line : TtyLine)
      (hk : (s.kernelContext s.currentProcess).point=.ttyRead t)
      (hl : (s.tty s.currentProcess).readLine=some line) :
      Uses M s env .resume (.handed line (s.tty s.currentProcess).readLen (s.terminals t).line
        (s.queue (.readQueue t)))
  /-- A scheduler call that picks its caller. -/
  | repick (input : Input) (h : Repicks M s input) : Uses M s env input .repick
  /-- The children of an ending process. -/
  | orphan (input : Input) (c : PcbPtr) (h : Ends M env s input)
      (hc : c∈s.children s.currentProcess) : Uses M s env input (.orphan (s.state c))
  /-- The parent of an ending process. -/
  | ends (input : Input) (h : Ends M env s input) :
      Uses M s env input (.ends (s.parent s.currentProcess))
  /-- A call that wakes others. -/
  | wakes (u : UserContext) (q : QueueAddr) (hv : u.vector=.kernel) (h : Wakes M u q) :
      Uses M s env (.trap u) (.wakes q)
  /-- A call that creates an object uses the slot that is found for it. -/
  | opens (u : UserContext) (i : ℕ) (hv : u.vector=.kernel) (h : allocObject s=some i)
      (hp : u.ptr 0≠0) (hm : M.syscallOf u.code=.pipeInit → env.malloc 0=true) :
      Uses M s env (.trap u) (.opens i (M.syscallOf u.code) s.live s.kernelContext)
  /-- A call of Reclaim. -/
  | reclaims (u : UserContext) (hv : u.vector=.kernel) (hc : M.syscallOf u.code=.reclaim)
      (hi : inUse s (u.int 0).toNat (getObject s (u.int 0))=false) :
      Uses M s env (.trap u) (.reclaims (u.int 0).toNat s.live s.kernelContext)
  /-- A completion trap of a terminal is a step of its own. -/
  | completes (u : UserContext) (hv : u.vector=.ttyTransmit) (hc : ttyValid M u.code=true) :
      Uses M s env (.trap u) (.completes u.code.toNat s.log)
  /-- A fork copies the pages of its caller. -/
  | copies (u : UserContext) (hv : u.vector=.kernel) (hc : M.syscallOf u.code=.fork) :
      Uses M s env (.trap u) (.copies s.memory (s.space s.currentProcess).region1Pt)

/-- The labels of a step are allowed. -/
def StepAllowed (M : Machine) (allow : Label → Prop) (s : Kernel) (env : Env)
    (input : Input) : Prop := ∀ x,Uses M s env input x → allow x

/-- The labels do not depend on saved registers. -/
theorem StepAllowed.context {c : PcbPtr → UserContext} {input : Input}
    (h : StepAllowed M allow s env input) :
    StepAllowed M allow {s with userContext := c} env input := by
  intro x hx
  refine h x ?_
  cases hx with
  | space => exact .space _
  | put u pipe hv hc ho hl => exact .put u pipe hv hc ho hl
  | handed t line hk hl => exact .handed t line hk hl
  | repick _ hr => exact .repick _ hr
  | orphan _ c he hc => exact .orphan _ c he hc
  | ends _ he => exact .ends _ he
  | wakes u q hv hw => exact .wakes u q hv hw
  | opens u i hv hi hp hm => exact .opens u i hv hi hp hm
  | reclaims u hv hc hi => exact .reclaims u hv hc hi
  | completes u hv hc => exact .completes u hv hc
  | copies u hv hc => exact .copies u hv hc

/-- An ending step may use the labels of an exit. -/
theorem StepAllowed.exit {u : UserContext} (h : StepAllowed M allow s env (.trap u))
    (he : u.vector=.illegal ∨ u.vector=.math ∨
      (u.vector=.memory ∧ (growStack M s.memory (s.space s.currentProcess) u.addr).2.2=false) ∨
      (u.vector=.kernel ∧ (M.syscallOf u.code=.exit ∨
        (M.syscallOf u.code=.exec ∧ ExecKills M env (u.ptr 0) (u.ptr 1) s)))) :
    ExitAllowed allow s := by
  intro hidle hinit
  have hends : Ends M env s (.trap u) := ⟨hidle,hinit,he⟩
  exact ⟨h _ (.ends _ hends),fun c hc => h _ (.orphan _ c hends hc)⟩

/-- The dispatcher runs the function of the call and settles. -/
theorem syscallDispatch_done (h : Coherent M s) (ha : Active s) (hs : env.switchOk=true)
    (caller : PcbPtr) (u : UserContext) (hvec : u.vector=.kernel)
    (hok : StepAllowed M allow s env (.trap u)) :
    Ops M allow s (syscallDispatch M env caller u s) ∧
      Settled M (syscallDispatch M env caller u s) := by
  have hv : allow (.space env) := hok _ (.space _)
  have hopens : ∀ i,allocObject s=some i → u.ptr 0≠0 →
      (M.syscallOf u.code=.pipeInit → env.malloc 0=true) →
      allow (.opens i (M.syscallOf u.code) s.live s.kernelContext) :=
    fun i hi hp hm => hok _ (.opens u i hvec hi hp hm)
  have hcast : ∀ {id : ℤ},0≤ id → id=(id.toNat : ℤ) := fun hid => (Int.toNat_of_nonneg hid).symm
  unfold syscallDispatch
  split
  · rename_i hc
    exact finish_done h ha caller (sysFork_carried h ha caller u hv (hok _ (.copies u hvec hc)))
  · rename_i hc
    exact finishExec_done h ha caller (sysExec_carried h ha hs hv _ _ u
      (fun hk => hok.exit (.inr (.inr (.inr ⟨hvec,.inr ⟨hc,hk⟩⟩)))))
  · rename_i hc
    exact exit_done h ha hs hv (hok.exit (.inr (.inr (.inr ⟨hvec,.inl hc⟩)))) (u.int 0)
  · exact finish_done h ha caller (sysWait_carried h ha hs caller _ u)
  · exact finish_done h ha caller (sysGetPid_carried u)
  · exact finish_done h ha caller (sysBrk_carried ha hv _ u)
  · rename_i hc
    exact finish_done h ha caller (sysDelay_carried h ha hs caller (int_lt u 0) u
      (fun hl hp => hok _ (.repick _ (.inr ⟨hvec,hc,hl,hp⟩))))
  · exact finish_done h ha caller (sysTtyRead_carried h ha hs caller _ _ _ u)
  · exact finish_done h ha caller (sysTtyWrite_carried h ha hs caller _ _ _ u)
  · rename_i hc
    rw [hc] at hopens
    exact finish_done h ha caller (sysPipeInit_carried _ u
      (fun i hi hp hm => hopens i hi hp (fun _ => hm)))
  · exact finish_done h ha caller (sysPipeRead_carried h ha hs caller _ _ _ u)
  · rename_i hc
    exact finish_done h ha caller (sysPipeWrite_carried h ha _ _ _ u hv
      (fun hid => hok _ (.wakes u _ hvec ⟨hc,hcast hid⟩))
      (fun pipe hg hl => hok _ (.put u pipe hvec hc hg hl)))
  · rename_i hc
    rw [hc] at hopens
    exact finish_done h ha caller (sysLockInit_carried _ u
      (fun i hi hp => hopens i hi hp (fun hn => by cases hn)))
  · exact finish_done h ha caller (lockAcquire_carried h ha hs caller _ u)
  · exact finish_done h ha caller (sysRelease_carried h ha _ u)
  · rename_i hc
    rw [hc] at hopens
    exact finish_done h ha caller (sysCvarInit_carried _ u
      (fun i hi hp => hopens i hi hp (fun hn => by cases hn)))
  · rename_i hc
    exact finish_done h ha caller (sysCvarSignal_carried h _ u
      (fun hid => hok _ (.wakes u _ hvec ⟨.inl hc,hcast hid⟩)))
  · rename_i hc
    exact finish_done h ha caller (sysCvarBroadcast_carried h ha _ u
      (fun hid => hok _ (.wakes u _ hvec ⟨.inr hc,hcast hid⟩)))
  · exact finish_done h ha caller (sysCvarWait_carried h ha hs caller _ _ u)
  · rename_i hc
    exact finish_done h ha caller (sysReclaim_carried _ u
      (fun hi => hok _ (.reclaims u hvec hc hi)))
  · exact finish_done h ha caller (carried_same u _)

/-- Saving the registers is calm. -/
theorem saveContext_calm (u : UserContext) : Calm M allow s (saveContext u s) := by
  unfold saveContext
  split
  · exact .single (.context _ _)
  · exact .refl

/-- Saving the registers keeps the fields that the handlers read. -/
theorem saveContext_eq (u : UserContext) : ∃ c,saveContext u s={s with userContext := c} := by
  unfold saveContext
  split
  · exact ⟨_,rfl⟩
  · exact ⟨s.userContext,rfl⟩

/-- The clock trap counts the tick, wakes sleepers, saves the stack and schedules. -/
theorem trapClock_done (h : Coherent M s) (ha : Active s) (hs : env.switchOk=true)
    (u : UserContext) (ho : s.currentProcess≠s.idleProcess → s.state s.currentProcess=.running →
      s.readyQueue=[] → (∀ i<M.maxProcs,¬DelayOver (tickClock s) (s.processTable i)) →
      allow .repick) :
    Ops M allow s (trapClock M env u s) ∧ Settled M (trapClock M env u s) := by
  have hpre : Calm M allow s (tickClock (saveContext u s)) := (saveContext_calm u).tail .tick
  obtain ⟨hc,hact⟩ := calm_keeps h ha hpre
  obtain ⟨c,he⟩ := saveContext_eq (s := s) u
  have hcur : (tickClock (saveContext u s)).currentProcess=s.currentProcess := by rw [he]; rfl
  have hop : Op M allow false (tickClock (saveContext u s)) _ := .preempt hact
  rw [hcur] at hop
  have hd := Carried.schedule hc hs hop hact.running (by
    simp [Kernel.setKernelContext,hcur]) (fun hr => by
    obtain ⟨hq,hcase⟩ := repicked_cases (op_coherent hc hop) hact.unlinked hr
    have hi := hr.2
    rw [he] at hi hq hcase
    rcases hcase with ⟨hrun,hmin⟩|⟨i,hi',_,hover,_⟩
    · exact ho hi hrun hq hmin
    · exact absurd hover.2.1 ha.toRunnable.not_blocked)
  exact ⟨(Calm.ops hpre).trans hd.1,hd.2⟩

/-- The memory trap grows the stack or ends the process. -/
theorem trapMemory_done (h : Coherent M s) (ha : Active s) (hs : env.switchOk=true)
    (u : UserContext) (hvec : u.vector=.memory) (hok : StepAllowed M allow s env (.trap u)) :
    Ops M allow s (trapMemory M env u s) ∧ Settled M (trapMemory M env u s) := by
  have hv : allow (.space env) := hok _ (.space _)
  have hpre : Calm M allow s (saveContext u s) := saveContext_calm u
  obtain ⟨hc,hact⟩ := calm_keeps h ha hpre
  obtain ⟨c,he⟩ := saveContext_eq (s := s) u
  unfold trapMemory
  rw [he] at hpre hc hact ⊢
  split
  · rename_i hg
    have hop : Op M allow true {s with userContext := c} _ :=
      .respace env _ _ (.grow u.addr hg) hact hv
    have hcalm := hpre.tail hop
    obtain ⟨hc',hact'⟩ := calm_keeps h ha hcalm
    exact ⟨Calm.ops (hcalm.tail (.toUser u hact')),settled_user hc' hact' u⟩
  · rename_i hg
    have hd : Carried M allow _ _ := processExitCurrent_done hc hact hs hv
      (hok.context.exit (.inr (.inr (.inl ⟨hvec,by simpa using hg⟩)))) ERROR
      (.grow u.addr (by simpa using hg))
    exact ⟨(Calm.ops hpre).trans hd.1,hd.2⟩

/-- Calm work followed by the return to user mode. -/
theorem calm_user (h : Coherent M s) (ha : Active s) (hc : Calm M allow s t) (u : UserContext) :
    Ops M allow s (returnToUser u t) ∧ Settled M (returnToUser u t) := by
  obtain ⟨ht,hta⟩ := calm_keeps h ha hc
  exact ⟨Calm.ops (hc.tail (.toUser u hta)),settled_user ht hta u⟩

/-- A trap taken in user mode. -/
theorem trap_done (h : Coherent M s) (ha : Active s) (hs : env.switchOk=true) (u : UserContext)
    (hok : StepAllowed M allow s env (.trap u)) :
    Ops M allow s (trap M env u s) ∧ Settled M (trap M env u s) := by
  have hpre : Calm M allow s (saveContext u s) := saveContext_calm u
  obtain ⟨hc,hact⟩ := calm_keeps h ha hpre
  obtain ⟨c,he⟩ := saveContext_eq (s := s) u
  have hok' : StepAllowed M allow (saveContext u s) env (.trap u) := by
    rw [he]
    exact hok.context
  have hexit : u.vector=.illegal ∨ u.vector=.math →
      Ops M allow s (trapAbort M env u s) ∧ Settled M (trapAbort M env u s) := by
    intro hvec
    have hd : Carried M allow _ _ := exit_done hc hact hs (hok _ (.space _))
      (hok'.exit (hvec.imp_right .inl)) ERROR
    exact ⟨(Calm.ops hpre).trans hd.1,hd.2⟩
  unfold trap
  split
  · rename_i hvec
    exact trapClock_done h ha hs u (fun hi hr hq hm => hok _ (.repick _ (.inl ⟨hvec,hi,hr,hq,hm⟩)))
  · rename_i hvec
    have hd : Ops M allow _ _ ∧ _ := syscallDispatch_done hc hact hs s.currentProcess u hvec hok'
    exact ⟨(Calm.ops hpre).trans hd.1,hd.2⟩
  · rename_i hvec
    exact trapMemory_done h ha hs u hvec hok
  · rename_i hvec
    exact hexit (.inl hvec)
  · rename_i hvec
    exact hexit (.inr hvec)
  · exact calm_user h ha (trapTtyReceive_calm h u) u
  · rename_i hvec
    exact calm_user h ha (trapTtyTransmit_calm h u (fun hc => hok _ (.completes u hvec hc))) u
  · exact calm_user h ha .refl u
  · exact calm_user h ha .refl u

/-- A process whose kernel stack is taken up executes. -/
theorem taken_active (hr : Runnable s) :
    Active (s.setKernelContext s.currentProcess ⟨s.currentProcess,.executing⟩) :=
  {hr with executing := by simp [Kernel.setKernelContext]}

/-- A resumed call, from the state in which its stack has been taken up. -/
theorem begun_done (h : Coherent M s) (hr : Runnable s)
    (hl : ∀ id g,(s.kernelContext s.currentProcess).point≠.acquire id g)
    (hn : (s.tty s.currentProcess).readLine=none) {f : Flow} (caller : PcbPtr)
    (hf : ∀ {v},v=s.setKernelContext s.currentProcess ⟨s.currentProcess,.executing⟩ →
      Coherent M v → Active v → Carried M allow v f) :
    Ops M allow s (finish caller f) ∧ Settled M (finish caller f) := by
  have hop : Op M allow true s _ := .begin hr hl hn
  have hc := op_coherent h hop
  have hact := taken_active hr
  have hd : Ops M allow _ _ ∧ _ := finish_done hc hact caller (hf rfl hc hact)
  exact ⟨hd.1.head ⟨true,hop⟩,hd.2⟩

/-- A resumed Acquire finds its caller the owner of the lock. -/
theorem lockAcquireResume_eq (h : Coherent M s) (hr : Runnable s) {id : ℤ} {g : ℕ}
    (hk : (s.kernelContext s.currentProcess).point=.acquire id g) :
    ∃ l,getObject s id=.lock l ∧ l.opened=g ∧ l.owner=s.currentProcess := by
  obtain ⟨h0,hlt,l,ho,hg,_,hown⟩ := h.lock.acquirer _ id g h.ready.current_live hk
  refine ⟨l,?_,hg,hown hr.not_blocked⟩
  unfold getObject
  rw [if_neg (by omega)]
  exact ho

/-- An operation that ends a call is followed by the return to user mode. -/
theorem returned_done {v : Kernel} (hc : Coherent M s) (hop : Op M allow true s v) (ha : Active v)
    (caller : PcbPtr) (u : UserContext) :
    Ops M allow s (trapKernelReturn caller u v) ∧ Settled M (trapKernelReturn caller u v) := by
  have hd : Calm M allow _ _ ∧ _ := trapKernelReturn_done (op_coherent hc hop) ha caller u
  exact ⟨(Calm.ops hd.1).head ⟨true,hop⟩,hd.2⟩

/-- A process that was preempted, or has never run, goes back to user mode. -/
theorem begun_returns (hc : Coherent M s) (hr : Runnable s)
    (hk : ∀ id g,(s.kernelContext s.currentProcess).point≠.acquire id g)
    (hn : (s.tty s.currentProcess).readLine=none) {v : Kernel}
    (hv : v=s.setKernelContext s.currentProcess ⟨s.currentProcess,.executing⟩) :
    Ops M allow s (returnToUser (savedContext v) v) ∧
      Settled M (returnToUser (savedContext v) v) := by
  subst hv
  have hop : Op M allow true s _ := .begin hr hk hn
  have hd : Ops M allow _ _ ∧ _ := calm_user (op_coherent hc hop) (taken_active hr) .refl
    (savedContext (s.setKernelContext s.currentProcess ⟨s.currentProcess,.executing⟩))
  exact ⟨hd.1.head ⟨true,hop⟩,hd.2⟩

/-- A resumed reader takes the line that was handed to it. -/
theorem handed_done {i : ℕ} {line : TtyLine} (hc : Coherent M s) (hr : Runnable s)
    (hk : (s.kernelContext s.currentProcess).point=.ttyRead i)
    (hl : (s.tty s.currentProcess).readLine=some line)
    (ho : allow (.handed line (s.tty s.currentProcess).readLen (s.terminals i).line
      (s.queue (.readQueue i)))) {v : Kernel}
    (hv : v=s.setKernelContext s.currentProcess ⟨s.currentProcess,.executing⟩)
    (caller : PcbPtr) (u : UserContext) :
    Ops M allow s (finish caller (ttyReadLoop M env caller i u v)) ∧
      Settled M (finish caller (ttyReadLoop M env caller i u v)) := by
  subst hv
  have hop : Op M allow true s _ := .takeHanded i line hk hl ho
  have hact : Active (ttyTakeBytes i line (s.terminals i)
      (s.setKernelContext s.currentProcess ⟨s.currentProcess,.executing⟩)) :=
    {taken_active hr with}
  have he : ttyReadLoop M env caller i u
      (s.setKernelContext s.currentProcess ⟨s.currentProcess,.executing⟩)=
      .returns (ttyTakeBytes i line (s.terminals i)
        (s.setKernelContext s.currentProcess ⟨s.currentProcess,.executing⟩)) u
        (lineCount line (s.tty s.currentProcess).readLen) := by
    simp only [ttyReadLoop,Kernel.setKernelContext,hl]
  rw [he]
  exact returned_done hc hop hact caller _

/-- A resumed writer forgets its bytes. -/
theorem written_done {i : ℕ} {len : ℤ} (hc : Coherent M s) (hr : Runnable s)
    (hk : (s.kernelContext s.currentProcess).point=.ttyWrite i len) {v : Kernel}
    (hv : v=s.setKernelContext s.currentProcess ⟨s.currentProcess,.executing⟩)
    (caller : PcbPtr) (u : UserContext) :
    Ops M allow s (finish caller (ttyWriteResume i len u v)) ∧
      Settled M (finish caller (ttyWriteResume i len u v)) := by
  subst hv
  have hop : Op M allow true s _ := .writeDone i len hr hk
  have hact : Active (((s.setKernelContext s.currentProcess
      ⟨s.currentProcess,.executing⟩).setTty s.currentProcess {s.tty s.currentProcess with
        writeBuf := fun _ => 0, writeLen := 0, writeOffset := 0}).emit
          (.ttyWriteReturned i s.currentProcess len)) := {taken_active hr with}
  exact returned_done hc hop hact caller _

/-- A resumed Acquire returns with the lock. -/
theorem acquired_done {id : ℤ} {g : ℕ} (hc : Coherent M s) (hr : Runnable s)
    (hk : (s.kernelContext s.currentProcess).point=.acquire id g) {v : Kernel}
    (hv : v=s.setKernelContext s.currentProcess ⟨s.currentProcess,.executing⟩)
    (caller : PcbPtr) (u : UserContext) :
    Ops M allow s (finish caller (lockAcquireResume M env caller id u v)) ∧
      Settled M (finish caller (lockAcquireResume M env caller id u v)) := by
  subst hv
  obtain ⟨l,ho,hg,hown⟩ := lockAcquireResume_eq hc hr hk
  subst hg
  have hop : Op M allow true s _ := .lockResume id l hr hk ho hown
  have hact : Active ((s.setKernelContext s.currentProcess
      ⟨s.currentProcess,.executing⟩).emit (.lockResumed l.opened s.currentProcess)) :=
    {taken_active hr with}
  have ho' : getObject (s.setKernelContext s.currentProcess ⟨s.currentProcess,.executing⟩) id=
    .lock l := ho
  have he : lockAcquireResume M env caller id u
      (s.setKernelContext s.currentProcess ⟨s.currentProcess,.executing⟩)=
      .returns ((s.setKernelContext s.currentProcess
        ⟨s.currentProcess,.executing⟩).emit (.lockResumed l.opened s.currentProcess)) u
        SUCCESS := by
    unfold lockAcquireResume
    rw [ho']
    dsimp only
    rw [if_pos (show l.owner=(s.setKernelContext s.currentProcess
      ⟨s.currentProcess,.executing⟩).currentProcess from hown)]
    rfl
  rw [he]
  exact returned_done hc hop hact caller _

/-- The continuation of a saved kernel stack. -/
theorem resume_done (h : Settled M s) (hcpu : s.cpu=.kernel) (hs : env.switchOk=true)
    (hok : StepAllowed M allow s env .resume) :
    Ops M allow s (resume M env s) ∧ Settled M (resume M env s) := by
  obtain ⟨hr,hne⟩ := h.kernel hcpu
  have hc := h.toCoherent
  have hcur := hc.ready.current_live
  have hpoint := hc.saved.point _ hcur
  have hidle : (s.kernelContext s.currentProcess).point≠.boot →
      (s.kernelContext s.currentProcess).point≠.clock → s.currentProcess≠s.idleProcess := by
    intro hb hk he
    rcases hc.saved.idle with hi|hi|hi <;> rw [← he] at hi
    · exact hne hi
    · exact hb hi
    · exact hk hi
  unfold resume continueAt
  cases hk : (s.kernelContext s.currentProcess).point with
  | executing => exact absurd hk hne
  | boot => exact begun_returns hc hr (by simp [hk]) (no_handed hc (by simp [hk])) rfl
  | clock => exact begun_returns hc hr (by simp [hk]) (no_handed hc (by simp [hk])) rfl
  | fork c =>
    refine begun_done hc hr (by simp [hk]) (no_handed hc (by simp [hk])) _ ?_
    rintro v rfl hvc hva
    rw [hk] at hpoint
    unfold sysForkReturn
    split
    · exact carried_same _ _
    · rename_i hcne
      exact absurd (show s.currentProcess=c from Eq.symm hpoint) hcne
  | wait statusPtr =>
    refine begun_done hc hr (by simp [hk]) (no_handed hc (by simp [hk])) _ ?_
    rintro v rfl hvc hva
    have hop : Op M allow true (s.setKernelContext s.currentProcess
      ⟨s.currentProcess,.executing⟩) _ := .clearWaiting hva
    have hmb : MayBlock _ := ⟨op_active hvc hva hop,hidle (by simp [hk]) (by simp [hk])⟩
    exact Carried.after (.single hop) (waitLoop_carried (op_coherent hvc hop) hmb hs _ _ _)
  | delay =>
    refine begun_done hc hr (by simp [hk]) (no_handed hc (by simp [hk])) _ ?_
    rintro v rfl hvc hva
    exact carried_same _ _
  | ttyRead i =>
    rw [hk] at hpoint
    cases hl : (s.tty s.currentProcess).readLine with
    | none =>
      refine begun_done hc hr (by simp [hk]) hl _ ?_
      rintro v rfl hvc hva
      exact ttyReadLoop_carried hvc ⟨hva,hidle (by simp [hk]) (by simp [hk])⟩ hs _ hpoint _
    | some line =>
      exact handed_done hc hr hk hl (hok _ (.handed i line hk hl)) rfl _ _
  | ttyWrite i len => exact written_done hc hr hk rfl _ _
  | pipeRead id buf len g =>
    rw [hk] at hpoint
    refine begun_done hc hr (by simp [hk]) (no_handed hc (by simp [hk])) _ ?_
    rintro v rfl hvc hva
    exact pipeReadLoop_carried hvc ⟨hva,hidle (by simp [hk]) (by simp [hk])⟩ hs _ id buf hpoint _
  | acquire id g => exact acquired_done hc hr hk rfl _ _
  | cvarWait cvarId lockId cg lg =>
    refine begun_done hc hr (by simp [hk]) (no_handed hc (by simp [hk])) _ ?_
    rintro v rfl hvc hva
    unfold cvarWaitResume
    split
    · exact lockAcquire_carried hvc hva hs _ _ _
    · exact carried_same _ _
  | exited => exact absurd (hc.saved.exited _ hcur hk) hr.not_zombie

/-- A step of the kernel is a sequence of operations between settled states. -/
theorem kernelStep_done (h : Settled M s) (hs : env.switchOk=true) {input : Input}
    (he : input.Enabled s) (hok : StepAllowed M allow s env input) :
    Ops M allow s (kernelStep M env s input) ∧ Settled M (kernelStep M env s input) := by
  cases input with
  | trap u => exact trap_done h.toCoherent (h.user he) hs u hok
  | resume => exact resume_done h he hs hok

end Steps

end Yalnix.CallOperations

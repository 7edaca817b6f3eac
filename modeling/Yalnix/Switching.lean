import Yalnix.Traces

/-!
# One switch at the end of a kernel entry

The process that enters the kernel stays the current one until the scheduler
picks the next, which is the last thing a kernel entry does. Everything an
entry does before is an operation of the process that entered, which leaves
those on the ready queue in their places. Only address spaces depend on the
answers from outside, which are those of the entry.
-/

namespace Yalnix.Switching

open Framework FrameTable KernelState Scheduling Ipc Terminals ProcessLifetime ProgramLoading
open Syscalls Traps KernelStart Coherence Operations OperationCoherence StepOperations
open CallOperations

variable {M : Machine} {env : Env} {s t x : Kernel} {caller : PcbPtr} {u : UserContext} {f : Flow}

/-- Address spaces change with the answers of this entry, and the scheduler
has not picked yet. -/
def FromEnv (env : Env) (a : Label) : Prop := a≠.repick ∧ ∀ e,a=.space e → e=env

/-- The answers of the entry. -/
theorem fromEnv_space (env : Env) : FromEnv env (.space env) := by
  refine ⟨(by simp),fun e he => ?_⟩
  injection he with he
  exact he.symm

/-- Labels other than picks and address spaces say nothing of the environment. -/
theorem fromEnv_other {a : Label} (hr : a≠.repick) (h : ∀ e,a≠.space e) : FromEnv env a :=
  ⟨hr,fun e he => absurd he (h e)⟩

/-- Operations during which the current process stays. -/
abbrev Stays (M : Machine) (env : Env) : Kernel → Kernel → Prop :=
  Relation.ReflTransGen
    (fun s t => (∃ b,Op M (FromEnv env) b s t) ∧ t.currentProcess=s.currentProcess)

/-- Operations of the current process, and a switch behind them. -/
def Switches (M : Machine) (env : Env) (s t : Kernel) : Prop :=
  ∃ x,Stays M env s x ∧ t=dispatchNext M env x

/-- Operations of the current process, and a switch behind them or none. -/
def Ending (M : Machine) (env : Env) (s t : Kernel) : Prop :=
  ∃ x,Stays M env s x ∧ (t=x ∨ t=dispatchNext M env x)

/-- The current process is the same one. -/
theorem Stays.current (h : Stays M env s t) : t.currentProcess=s.currentProcess := by
  induction h with
  | refl => rfl
  | tail _ hop ih => exact hop.2.trans ih

/-- The kernel stays coherent during such operations. -/
theorem Stays.coherent (hc : Coherent M s) (h : Stays M env s t) : Coherent M t := by
  induction h with
  | refl => exact hc
  | tail _ hop ih =>
    obtain ⟨b,hop⟩ := hop.1
    exact op_coherent ih hop

/-- What holds in a state and is kept by the operations of its process. -/
theorem Stays.invariant {P : Kernel → Prop} (h : Stays M env s t) (hc : Coherent M s) (hp : P s)
    (hop : ∀ b v w,Coherent M v → v.currentProcess=s.currentProcess → P v →
      Op M (FromEnv env) b v w → w.currentProcess=v.currentProcess → P w) : P t := by
  have hall : P t ∧ Coherent M t ∧ t.currentProcess=s.currentProcess := by
    induction h with
    | refl => exact ⟨hp,hc,rfl⟩
    | tail _ hone ih =>
      obtain ⟨hpv,hcv,hcur⟩ := ih
      obtain ⟨b,hone'⟩ := hone.1
      exact ⟨hop b _ _ hcv hcur hpv hone' hone.2,op_coherent hcv hone',hone.2.trans hcur⟩
  exact hall.1

/-- What an operation does to the ready queue before the pick. -/
theorem op_ready {b : Bool} (hc : Coherent M s) (hop : Op M (FromEnv env) b s t)
    (hcur : t.currentProcess=s.currentProcess) : s.readyQueue<+:t.readyQueue := by
  cases hop with
  | dispatch e hs hcpu hk hr ho =>
    have he := dispatchNext_eq hc hs
    rw [he] at hcur ⊢
    rcases nextProcess_cases hc with ⟨hq,_⟩|⟨rest,hq⟩
    · rw [hq]
      exact List.nil_prefix
    · by_cases hi : s.currentProcess=s.idleProcess
      · obtain ⟨_,hne,_⟩ := hc.ready.mem (nextProcess s) (by rw [hq]; exact List.mem_cons_self)
        exact absurd (hcur.trans hi) hne
      · exact absurd rfl (ho hcur hi).1
  | forkUndone e c pfns pt m₁ m u ha hcp =>
    obtain ⟨h0,hl⟩ := callocPcb_fresh hcp
    rw [destroyed_child hc h0 hl]
    exact List.prefix_rfl
  | collect statusPtr c ha hch hz =>
    rw [collectChild_eq hc ha statusPtr hch hz]
    exact List.prefix_rfl
  | sleepOver => exact List.prefix_append ..
  | requeue => exact List.prefix_append ..
  | spawn => exact List.prefix_append ..
  | handOff => exact List.prefix_append ..
  | zombieWake => exact List.prefix_append ..
  | wake => exact List.prefix_append ..
  | deliver => exact List.prefix_append ..
  | transmitLast => exact List.prefix_append ..
  | transmitNext => exact List.prefix_append ..
  | _ => exact List.prefix_rfl

/-- Processes on the ready queue stay in their places. -/
theorem Stays.ready (h : Stays M env s t) (hc : Coherent M s) : s.readyQueue<+:t.readyQueue := by
  refine h.invariant hc (P := fun v => s.readyQueue<+:v.readyQueue) List.prefix_rfl ?_
  intro b v w hcv _ hv hop hcur
  exact hv.trans (op_ready hcv hop hcur)

/-- One operation that keeps the current process. -/
theorem stays_op {b : Bool} (hop : Op M (FromEnv env) b s t)
    (hcur : t.currentProcess=s.currentProcess) : Stays M env s t := .single ⟨⟨b,hop⟩,hcur⟩

/-- Calm operations keep the current process. -/
theorem op_current (hc : Coherent M s) (hop : Op M (FromEnv env) true s t) :
    t.currentProcess=s.currentProcess := by
  cases hop with
  | forkUndone e c pfns pt m₁ m u ha hcp =>
    obtain ⟨h0,hl⟩ := callocPcb_fresh hcp
    rw [destroyed_child hc h0 hl]
    rfl
  | collect statusPtr c ha hch hz =>
    rw [collectChild_eq hc ha statusPtr hch hz]
    rfl
  | _ => rfl

/-- Calm sequences are operations during which the current process stays. -/
theorem calm_stays (hc : Coherent M s) (h : Calm M (FromEnv env) s t) : Stays M env s t := by
  have hall : Stays M env s t ∧ Coherent M t := by
    induction h with
    | refl => exact ⟨.refl,hc⟩
    | tail _ hop ih =>
      exact ⟨ih.1.tail ⟨⟨true,hop⟩,op_current ih.2 hop⟩,op_coherent ih.2 hop⟩
  exact hall.1

/-- An entry without a switch. -/
theorem Stays.ending (h : Stays M env s t) : Ending M env s t := ⟨t,h,.inl rfl⟩

/-- An entry with a switch. -/
theorem Switches.ending (h : Switches M env s t) : Ending M env s t := by
  obtain ⟨x,hx,ht⟩ := h
  exact ⟨x,hx,.inr ht⟩

/-- Operations before a switch belong to it. -/
theorem Switches.after (h : Stays M env s x) (ht : Switches M env x t) : Switches M env s t := by
  obtain ⟨y,hy,hty⟩ := ht
  exact ⟨y,Relation.ReflTransGen.trans h hy,hty⟩

/-- Operations before an ending belong to it. -/
theorem Ending.after (h : Stays M env s x) (ht : Ending M env x t) : Ending M env s t := by
  obtain ⟨y,hy,hty⟩ := ht
  exact ⟨y,Relation.ReflTransGen.trans h hy,hty⟩

section Scheduler

/-- The loop that wakes sleepers stays with the current process. -/
theorem wakeLoop_stays (hc : Coherent M s) (l : List ℕ) : Stays M env s (l.foldl wakeIfOver s) := by
  induction l generalizing s with
  | nil => exact .refl
  | cons i rest ih =>
    have hone : Stays M env s (wakeIfOver s i) := by
      rcases wakeIfOver_cases hc i with ⟨_,he⟩|⟨hl,ho,he⟩
      · rw [he]
      · rw [he]
        exact stays_op (.sleepOver _ hl ho) rfl
    rw [List.foldl_cons]
    exact Relation.ReflTransGen.trans hone (ih (hone.coherent hc))

/-- ProcessSchedule ends with its switch. -/
theorem schedule_switches (hc : Coherent M s) : Switches M env s (processSchedule M env s) := by
  have hw : Stays M env s (processWakeDelayed M s) := wakeLoop_stays hc _
  have hr : Stays M env (processWakeDelayed M s) (requeueCurrent (processWakeDelayed M s)) := by
    rcases requeueCurrent_cases (hw.coherent hc) with ⟨_,he⟩|⟨hi,hst,he⟩
    · rw [he]
    · rw [he]
      exact stays_op (.requeue hi hst) rfl
  exact ⟨_,Relation.ReflTransGen.trans hw hr,rfl⟩

/-- An operation of the current process and the scheduler. -/
theorem scheduled_switches {b : Bool} (hc : Coherent M s) (hop : Op M (FromEnv env) b s t)
    (hcur : t.currentProcess=s.currentProcess) : Switches M env s (processSchedule M env t) :=
  (schedule_switches (op_coherent hc hop)).after (stays_op hop hcur)

/-- A process that blocks and schedules ends with a switch. -/
theorem blocked_ending {b : Bool} (hc : Coherent M s) (hop : Op M (FromEnv env) b s t)
    (hcur : t.currentProcess=s.currentProcess) : Ending M env s (processSchedule M env t) :=
  (scheduled_switches hc hop hcur).ending

/-- A clock trap ends with a switch. -/
theorem clock_switches (hc : Coherent M s) (ha : Active s) (u : UserContext) :
    Switches M env s (trapClock M env u s) := by
  have hpre : Calm M (FromEnv env) s (tickClock (saveContext u s)) :=
    (saveContext_calm u).tail .tick
  obtain ⟨htc,hta⟩ := calm_keeps hc ha hpre
  obtain ⟨c,he⟩ := saveContext_eq (s := s) u
  have hcur : (tickClock (saveContext u s)).currentProcess=s.currentProcess := by
    rw [he]
    rfl
  have hop : Op M (FromEnv env) false (tickClock (saveContext u s)) _ := .preempt hta
  rw [hcur] at hop
  exact (scheduled_switches htc hop rfl).after (calm_stays hc hpre)

end Scheduler

section Calls

/-- A call that returns is calm; one that does not ends with a switch. -/
def Parted (M : Machine) (env : Env) (s : Kernel) : Flow → Prop
  | .returns t _ _ => Calm M (FromEnv env) s t
  | .leaves t => Ending M env s t

/-- What a call that returns does is known already. -/
theorem parted_of (h : Carried M (FromEnv env) s f) (hl : ∀ t,f=.leaves t → Ending M env s t) :
    Parted M env s f := by
  cases f with
  | returns t u rc => exact h
  | leaves t => exact hl t rfl

/-- Calm work before a function. -/
theorem Parted.after (hc : Coherent M s) (h : Calm M (FromEnv env) s x) (hf : Parted M env x f) :
    Parted M env s f := by
  cases f with
  | returns t u rc => exact h.trans hf
  | leaves t => exact Ending.after (calm_stays hc h) hf

/-- The loop of PipeRead is calm or ends with a switch. -/
theorem pipeReadLoop_parted (hc : Coherent M s) (hb : MayBlock s) (hs : env.switchOk=true) (id : ℤ)
    (buf : ℕ) {len : ℤ} (hl : 0<len) : Parted M env s
    (pipeReadLoop M env caller id buf len u s) := by
  refine parted_of (pipeReadLoop_carried hc hb hs caller id buf hl u) (fun t ht => ?_)
  unfold pipeReadLoop at ht
  split at ht
  · rename_i pipe ho
    split at ht
    · rename_i he
      injection ht with ht
      subst ht
      exact blocked_ending hc (.blockPipe id buf len pipe _ u rfl hb hl ho he) rfl
    · cases ht
  · cases ht

/-- The loop of LockAcquire is calm or ends with a switch. -/
theorem lockAcquireLoop_parted (hc : Coherent M s) (hb : MayBlock s) (hs : env.switchOk=true)
    {id : ℤ} {l : LockState} (ho : getObject s id=.lock l) (hn : l.owner≠s.currentProcess) :
    Parted M env s (lockAcquireLoop M env caller id l u s) := by
  refine parted_of (lockAcquireLoop_carried hc hb hs caller ho hn u) (fun t ht => ?_)
  unfold lockAcquireLoop at ht
  split at ht
  · rename_i hl
    injection ht with ht
    subst ht
    exact blocked_ending hc (.blockLock id l _ u rfl hb ho hl hn) rfl
  · cases ht

/-- LockAcquire is calm where it returns and ends with a switch where it does not. -/
theorem lockAcquire_parted (hc : Coherent M s) (ha : Active s) (hs : env.switchOk=true) (id : ℤ) :
    Parted M env s (lockAcquire M env caller id u s) := by
  unfold lockAcquire
  split
  · rename_i l ho
    split
    · exact .refl
    · rename_i hi
      split
      · exact .refl
      · rename_i hn
        exact lockAcquireLoop_parted hc (mayBlock ha hi) hs ho hn
  · exact .refl

/-- The loop of Wait is calm or ends with a switch. -/
theorem waitLoop_parted (hc : Coherent M s) (hb : MayBlock s) (hs : env.switchOk=true)
    (statusPtr : ℕ) : Parted M env s (waitLoop M env caller statusPtr u s) := by
  refine parted_of (waitLoop_carried hc hb hs caller statusPtr u) (fun t ht => ?_)
  unfold waitLoop at ht
  split at ht
  · cases ht
  · rename_i hn
    split at ht
    · cases ht
    · rename_i hne
      injection ht with ht
      subst ht
      refine blocked_ending hc (.blockChild statusPtr _ u rfl hb (by simpa using hne) ?_) rfl
      intro c hch hz
      have := List.find?_eq_none.1 hn c hch
      simp [hz] at this

/-- Delay, which the scheduler may end at once. -/
theorem sysDelay_parted (hc : Coherent M s) (ha : Active s) {ticks : ℤ} (ht : ticks<2^31) :
    Parted M env s (sysDelay M env caller ticks u s) := by
  unfold sysDelay
  split
  · exact show Calm M (FromEnv env) s s from .refl
  · split
    · exact show Calm M (FromEnv env) s s from .refl
    · split
      · exact show Calm M (FromEnv env) s s from .refl
      · rename_i h₁ h₂ hi
        exact blocked_ending hc (.blockDelay ticks _ u rfl (mayBlock ha hi) (by omega) ht) rfl

/-- The loop of TtyRead of a process without a handed line. -/
theorem ttyReadLoop_parted (hc : Coherent M s) (hb : MayBlock s) (hs : env.switchOk=true) {i : ℕ}
    (hi : i<M.numTerminals) : Parted M env s (ttyReadLoop M env caller i u s) := by
  refine parted_of (ttyReadLoop_carried hc hb hs caller hi u) (fun t ht => ?_)
  have hn := no_line hc hb.toActive
  unfold ttyReadLoop at ht
  rw [hn] at ht
  dsimp only at ht
  split at ht
  · cases ht
  · rename_i v he
    injection ht with ht
    subst ht
    have hl : (s.terminals i).line=none ∧ (s.terminals i).inputQueue=[] := by
      unfold ttyNextLine at he
      cases hl : (s.terminals i).line with
      | some line => rw [hl] at he; cases he
      | none =>
        rw [hl] at he
        cases hq : (s.terminals i).inputQueue with
        | nil => exact ⟨rfl,rfl⟩
        | cons line rest => rw [hq] at he; cases he
    exact blocked_ending hc (.blockRead i _ u rfl hb hi hn hl.1 hl.2) rfl

/-- SysTtyWrite is calm where it returns and ends with a switch where it does not. -/
theorem sysTtyWrite_parted (hc : Coherent M s) (ha : Active s) (hs : env.switchOk=true) (id : ℤ)
    (buf : ℕ) (len : ℤ) : Parted M env s (sysTtyWrite M env caller id buf len u s) := by
  refine parted_of (sysTtyWrite_carried hc ha hs caller id buf len u) (fun t ht => ?_)
  unfold sysTtyWrite at ht
  split at ht
  · cases ht
  · rename_i hv
    split at ht
    · cases ht
    · split at ht
      · cases ht
      · rename_i hz hi
        split at ht
        · cases ht
        · have hmb := mayBlock ha hi
          have hterm := ttyValid_lt (M := M) (fun hf => hv (.inl hf))
          have hl : 0<len := by omega
          split at ht
          · rename_i hw
            injection ht with ht
            subst ht
            rw [startWrite_eq (fun he => hi (.inl he)) hl hw.2]
            exact blocked_ending hc
              (.startWrite env id.toNat buf len _ u rfl hmb hterm hl hw.1 hw.2) rfl
          · rename_i hw
            injection ht with ht
            subst ht
            exact blocked_ending hc (.queueWrite env id.toNat buf len _ u rfl hmb hterm hl hw) rfl

/-- SysCvarWait is calm where it returns and ends with a switch where it does not. -/
theorem sysCvarWait_parted (hc : Coherent M s) (ha : Active s) (hs : env.switchOk=true)
    (cvarId lockId : ℤ) : Parted M env s (sysCvarWait M env caller cvarId lockId u s) := by
  refine parted_of (sysCvarWait_carried hc ha hs caller cvarId lockId u) (fun t ht => ?_)
  unfold sysCvarWait at ht
  split at ht
  · rename_i cvar l ho hl
    split at ht
    · cases ht
    · rename_i hown
      injection ht with ht
      subst ht
      have hobj := objects_of_getObject ho (by simp)
      have hlobj := objects_of_getObject hl (by simp)
      have hcur : l.owner=s.currentProcess := by simpa using hown
      have hrel : Calm M (FromEnv env) s (lockRelease lockId.toNat l s) :=
        lockRelease_calm hc ha hlobj hcur
      obtain ⟨hrc,hra⟩ := calm_keeps hc ha hrel
      obtain ⟨hobjs,hcp,hip⟩ := lockRelease_frame (s := s) lockId.toNat l
      obtain ⟨w,hw,hwn⟩ := lockRelease_owner hc ha lockId.toNat l
      have hne : cvarId.toNat≠lockId.toNat := by
        intro he
        rw [he,hlobj] at hobj
        cases hobj
      have hlive := hc.owner.owner _ l hlobj
        (by rw [hcur]; exact hc.ready.ne_null hc.ready.current_live)
      have hmb : MayBlock (lockRelease lockId.toNat l s) := by
        refine ⟨hra,?_⟩
        rw [hcp,hip,←hcur]
        exact hlive.2.1
      have hb := getObject_bounds (show getObject s cvarId≠.free by rw [ho]; simp)
      have hlb := getObject_bounds (show getObject s lockId≠.free by rw [hl]; simp)
      have hcvar : getObject (lockRelease lockId.toNat l s) cvarId=.cvar cvar := by
        unfold getObject
        rw [if_neg (by omega),hobjs _ hne]
        exact hobj
      have hlock : getObject (lockRelease lockId.toNat l s) lockId=.lock {l with owner := w} := by
        unfold getObject
        rw [if_neg (by omega)]
        exact hw
      exact Ending.after (calm_stays hc hrel) (blocked_ending hrc
        (.blockCvar cvarId lockId cvar l.opened _ u rfl hmb hcvar
          ⟨_,hlock,rfl,by rw [hcp]; exact hwn⟩) rfl)
  · cases ht

/-- PipeWrite, which leaves in its endless loop only. -/
theorem sysPipeWrite_parted (hc : Coherent M s) (ha : Active s) (id : ℤ) (buf : ℕ) (len : ℤ) :
    Parted M env s (sysPipeWrite env id buf len u s) := by
  refine parted_of (sysPipeWrite_carried hc ha id buf len u (fromEnv_space env)
    (fun _ => fromEnv_other (by simp) (by simp))
    (fun _ _ _ => fromEnv_other (by simp) (by simp))) (fun t ht => ?_)
  have hstop : Stays M env s {s with cpu := .diverged} := by
    have hop : Op M (FromEnv env) false s {s with
        memory := s.memory
        space := Function.update s.space s.currentProcess (s.space s.currentProcess)
        cpu := .diverged} := .stop .diverged env s.memory (s.space s.currentProcess) ha (by simp)
      (by simp) (by simp) .kept (fromEnv_space env)
    rw [Function.update_eq_self] at hop
    exact stays_op hop rfl
  unfold sysPipeWrite at ht
  split at ht
  · cases ht
  · split at ht
    · cases ht
    · split at ht
      · split at ht
        · cases ht
        · injection ht with ht
          subst ht
          exact hstop.ending
        · cases ht
      · cases ht

/-- Fork, which leaves in its panic only. -/
theorem sysFork_parted (hc : Coherent M s) (ha : Active s) :
    Parted M env s (sysFork M env caller u s) := by
  refine parted_of (sysFork_carried hc ha caller u (fromEnv_space env)
    (fromEnv_other (by simp) (by simp))) (fun t ht => ?_)
  have hstop : Stays M env s (s.kernelPanic "calloc page table failed") := by
    have hop : Op M (FromEnv env) false s {s with
        memory := s.memory
        space := Function.update s.space s.currentProcess (s.space s.currentProcess)
        cpu := .aborted "calloc page table failed"} := .stop _ env s.memory
      (s.space s.currentProcess) ha (by simp) (by simp) (by simp) .kept (fromEnv_space env)
    rw [Function.update_eq_self] at hop
    exact stays_op hop rfl
  unfold sysFork at ht
  split at ht
  · cases ht
  · split at ht
    · injection ht with ht
      subst ht
      exact hstop.ending
    · split at ht
      · cases ht
      · split at ht
        · unfold sysForkReturn at ht
          split at ht
          · cases ht
          · cases ht
        · cases ht

end Calls

section Exits

/-- Exit, with what is left of the address space. -/
theorem processExitCurrent_ending (hc : Coherent M s) (ha : Active s) (hs : env.switchOk=true)
    (status : ℤ) {m : Memory} {v : UserSpace}
    (he : SpaceEnd M env (s.currentProcess=s.idleProcess) s.memory (s.space s.currentProcess) m v) :
    Ending M env s (processExitCurrent M env status {s with
      memory := m
      space := Function.update s.space s.currentProcess v}) := by
  unfold processExitCurrent
  dsimp only
  split
  · exact (stays_op (.stop _ env m v ha (by simp) (by simp) (by simp) he (fromEnv_space env))
      rfl).ending
  · rename_i hi
    split
    · exact (stays_op (.stop _ env m v ha (by simp) (by simp) (by simp) he (fromEnv_space env))
        rfl).ending
    · have ho : Calm M (FromEnv env) s _ ∧ _ := orphanChildren_calm hc ha rfl
        (fun c _ => fromEnv_other (by simp) (by simp))
      obtain ⟨ch,pa,hfr⟩ := orphanChildren_frame (s := s) s.currentProcess
        (s.children s.currentProcess)
      obtain ⟨hoc,hoa⟩ := calm_keeps hc ha ho.1
      have hcur : (orphanChildren s.currentProcess (s.children s.currentProcess) s).currentProcess=
          s.currentProcess := by rw [hfr]
      have hr : Calm M (FromEnv env) _ _ ∧ _ :=
        releaseLoop_calm hoc hoa (List.range IPC_MAX_OBJECTS)
      rw [hcur] at hr
      obtain ⟨hrel,hf,hown⟩ := hr
      obtain ⟨hrc,hra⟩ := calm_keeps hoc hoa hrel
      rw [orphanChildren_memory]
      unfold ipcProcessExit leaveZombie
      rw [if_pos hs]
      rw [releaseLoop_memory]
      refine Ending.after (calm_stays hc (ho.1.trans hrel)) ?_
      generalize (List.range IPC_MAX_OBJECTS).foldl (releaseIfOwned s.currentProcess)
        (orphanChildren s.currentProcess (s.children s.currentProcess) s)=z at *
      have hzc : z.currentProcess=s.currentProcess := hf.current.trans hcur
      have hzm : z.memory=s.memory := hf.memory.trans (by rw [hfr])
      have hzs : z.space=s.space := hf.space.trans (by rw [hfr])
      have hzi : z.idleProcess=s.idleProcess := hf.idle.trans (by rw [hfr])
      have hmb : MayBlock z := ⟨hra,by rw [hzc,hzi]; exact fun he => hi (.inr he)⟩
      have hsp : Function.update z.space z.currentProcess v=
          Function.update s.space s.currentProcess v := by rw [hzc,hzs]
      obtain ⟨hbc,_,_⟩ := becomeZombie_frame (s := {z with
        memory := m
        space := Function.update z.space z.currentProcess v}) status ⟨s.currentProcess,.exited⟩
      rw [←hsp]
      refine blocked_ending hrc (becomeZombie_op hrc hmb status rfl ?_ ?_ (fromEnv_space env)
        (fromEnv_other (by simp) (by simp)) ?_) hbc
      · rw [hzc,hf.children]
        exact ho.2
      · intro i l hl hlo
        rw [hzc] at hlo
        have hlt := hrc.owner.lt (i := i) (by rw [hl]; simp)
        exact (hown i l hl hlo).1 (List.mem_range.2 hlt)
      · rw [hzc,hzi,hzm,hzs]
        exact he

/-- Exit of a process with its whole address space. -/
theorem exit_ending (hc : Coherent M s) (ha : Active s) (hs : env.switchOk=true) (status : ℤ) :
    Ending M env s (processExitCurrent M env status s) := by
  have hkept : SpaceEnd M env (s.currentProcess=s.idleProcess) s.memory (s.space s.currentProcess)
      s.memory (s.space s.currentProcess) := .kept
  have hd := processExitCurrent_ending hc ha hs status hkept
  rwa [Function.update_eq_self] at hd

/-- An Exec that leaves has ended its caller, or has stopped the kernel. -/
theorem execImage_leaves (hc : Coherent M s) (ha : Active s) (hs : env.switchOk=true)
    (hi : s.currentProcess≠s.idleProcess) {filename argvec : ℕ}
    (h : execImage M env filename argvec u s=.leaves t) : Ending M env s t := by
  unfold execImage at h
  split at h
  · cases h
  · rename_i args blocks hcopy
    split at h
    · cases h
    · rename_i m v hl
      injection h with h
      subst h
      have hnote : Calm M (FromEnv env) s _ := .single (.note (execLedger blocks
        (loadLedger M env args (2+args.length) s.memory (s.space s.currentProcess))) trivial)
      obtain ⟨hnc,hna⟩ := calm_keeps hc ha hnote
      exact Ending.after (calm_stays hc hnote)
        (processExitCurrent_ending hnc hna hs ERROR (.exec hi hl))
    · rename_i m v hl
      injection h with h
      subst h
      have hnote : Calm M (FromEnv env) s _ := .single (.note (.execLedger
        (loadLedger M env args (2+args.length) s.memory (s.space s.currentProcess)).opened
        (loadLedger M env args (2+args.length) s.memory (s.space s.currentProcess)).closed
        (blocks++(loadLedger M env args (2+args.length) s.memory
          (s.space s.currentProcess)).allocated)
        (loadLedger M env args (2+args.length) s.memory (s.space s.currentProcess)).freed) trivial)
      obtain ⟨hnc,hna⟩ := calm_keeps hc ha hnote
      exact Ending.after (calm_stays hc hnote) (stays_op (.stop .faulted env m v hna (by simp)
        (by simp) (by simp) (.fault hi hl) (fromEnv_space env)) rfl).ending
    · cases h

/-- SysExec is calm where it returns and ends with a switch where it does not. -/
theorem sysExec_parted (hc : Coherent M s) (ha : Active s) (hs : env.switchOk=true)
    (filename argvec : ℕ) : Parted M env s (sysExec M env filename argvec u s) := by
  refine parted_of (sysExec_carried hc ha hs (fromEnv_space env) filename argvec u
    (fun _ _ _ => ⟨fromEnv_other (by simp) (by simp),
      fun c _ => fromEnv_other (by simp) (by simp)⟩)) (fun t ht => ?_)
  unfold sysExec at ht
  split at ht
  · cases ht
  · rename_i hi
    have hloads : Calm M (FromEnv env) s (noteLoads (execLoads env filename argvec) s) :=
      noteLoads_calm _ s
    obtain ⟨hlc,hla⟩ := calm_keeps hc ha hloads
    exact Ending.after (calm_stays hc hloads)
      (execImage_leaves hlc hla hs (fun he => hi (.inr he)) ht)

end Exits

section Entries

/-- A call up to the return to user mode. -/
theorem finish_ending (hc : Coherent M s) (ha : Active s) (hf : Parted M env s f) :
    Ending M env s (finish caller f) := by
  cases f with
  | returns t u rc =>
    obtain ⟨htc,hta⟩ := calm_keeps hc ha hf
    have hd : Calm M (FromEnv env) t _ ∧ _ := trapKernelReturn_done htc hta caller (u.setResult rc)
    exact (calm_stays hc (Relation.ReflTransGen.trans hf hd.1)).ending
  | leaves t => exact hf

/-- Exec up to the return to user mode. -/
theorem finishExec_ending (hc : Coherent M s) (ha : Active s) (hf : Parted M env s f) :
    Ending M env s (finishExec caller f) := by
  cases f with
  | returns t u rc =>
    obtain ⟨htc,hta⟩ := calm_keeps hc ha hf
    unfold finishExec
    dsimp only
    split
    · have hd : Calm M (FromEnv env) t _ ∧ _ :=
        trapKernelReturn_done htc hta caller (t.userContext t.currentProcess)
      exact (calm_stays hc (Relation.ReflTransGen.trans hf hd.1)).ending
    · have hd : Calm M (FromEnv env) t _ ∧ _ :=
        trapKernelReturn_done htc hta caller (u.setResult ERROR)
      exact (calm_stays hc (Relation.ReflTransGen.trans hf hd.1)).ending
  | leaves t => exact hf

/-- The dispatcher stays with the current process or ends with a switch. -/
theorem syscallDispatch_ending (hc : Coherent M s) (ha : Active s) (hs : env.switchOk=true) :
    Ending M env s (syscallDispatch M env caller u s) := by
  unfold syscallDispatch
  split
  · exact finish_ending hc ha (sysFork_parted hc ha)
  · exact finishExec_ending hc ha (sysExec_parted hc ha hs _ _)
  · exact exit_ending hc ha hs _
  · refine finish_ending hc ha ?_
    unfold sysWait
    split
    · exact .refl
    · rename_i hi
      exact waitLoop_parted hc (mayBlock ha hi) hs _
  · exact finish_ending hc ha (parted_of (sysGetPid_carried u) (fun t ht => by
      unfold sysGetPid at ht
      split at ht <;> cases ht))
  · exact finish_ending hc ha (parted_of (sysBrk_carried ha (fromEnv_space env) _ u) (fun t ht => by
      unfold sysBrk at ht
      split at ht <;> cases ht))
  · exact finish_ending hc ha (sysDelay_parted hc ha (int_lt u 0))
  · refine finish_ending hc ha ?_
    unfold sysTtyRead
    split
    · exact .refl
    · rename_i hv
      split
      · exact .refl
      · split
        · exact .refl
        · rename_i hi
          have hreq : Calm M (FromEnv env) s _ :=
            .single (.readRequest (u.int 0).toNat (u.ptr 1) (u.int 2).toNat)
          obtain ⟨hrc,hra⟩ := calm_keeps hc ha hreq
          exact Parted.after hc hreq (ttyReadLoop_parted hrc (mayBlock hra hi) hs
            (ttyValid_lt (fun hf => hv (.inl hf))))
  · exact finish_ending hc ha (sysTtyWrite_parted hc ha hs _ _ _)
  · exact finish_ending hc ha (parted_of (sysPipeInit_carried _ u
      (fun _ _ _ _ => fromEnv_other (by simp) (by simp))) (fun t ht => by
        unfold sysPipeInit at ht
        split at ht
        · cases ht
        · split at ht
          · cases ht
          · split at ht <;> cases ht))
  · refine finish_ending hc ha ?_
    unfold sysPipeRead
    split
    · exact .refl
    · split
      · exact .refl
      · split
        · exact .refl
        · rename_i h₁ h₂ h₃
          exact pipeReadLoop_parted hc (mayBlock ha h₃) hs _ _ (by omega)
  · exact finish_ending hc ha (sysPipeWrite_parted hc ha _ _ _)
  · exact finish_ending hc ha (parted_of (sysLockInit_carried _ u
      (fun _ _ _ => fromEnv_other (by simp) (by simp))) (fun t ht => by
        unfold sysLockInit at ht
        split at ht
        · cases ht
        · split at ht <;> cases ht))
  · exact finish_ending hc ha (lockAcquire_parted hc ha hs _)
  · exact finish_ending hc ha (parted_of (sysRelease_carried hc ha _ u) (fun t ht => by
      unfold sysRelease at ht
      split at ht
      · split at ht <;> cases ht
      · cases ht))
  · exact finish_ending hc ha (parted_of (sysCvarInit_carried _ u
      (fun _ _ _ => fromEnv_other (by simp) (by simp))) (fun t ht => by
        unfold sysCvarInit at ht
        split at ht
        · cases ht
        · split at ht <;> cases ht))
  · exact finish_ending hc ha (parted_of (sysCvarSignal_carried hc _ u
      (fun _ => fromEnv_other (by simp) (by simp))) (fun t ht => by
        unfold sysCvarSignal at ht
        split at ht <;> cases ht))
  · exact finish_ending hc ha (parted_of (sysCvarBroadcast_carried hc ha _ u
      (fun _ => fromEnv_other (by simp) (by simp))) (fun t ht => by
        unfold sysCvarBroadcast at ht
        split at ht <;> cases ht))
  · exact finish_ending hc ha (sysCvarWait_parted hc ha hs _ _)
  · exact finish_ending hc ha (parted_of (sysReclaim_carried _ u
      (fun _ => fromEnv_other (by simp) (by simp))) (fun t ht => by
        unfold sysReclaim at ht
        split at ht <;> cases ht))
  · exact finish_ending hc ha (show Calm M (FromEnv env) s s from .refl)

/-- Calm work and the return to user mode. -/
theorem calm_user_ending (hc : Coherent M s) (ha : Active s) (h : Calm M (FromEnv env) s t) :
    Ending M env s (returnToUser u t) := by
  obtain ⟨_,hta⟩ := calm_keeps hc ha h
  exact (calm_stays hc (h.tail (.toUser u hta))).ending

/-- A trap taken in user mode. -/
theorem trap_ending (hc : Coherent M s) (ha : Active s) (hs : env.switchOk=true) (u : UserContext) :
    Ending M env s (trap M env u s) := by
  have hpre : Calm M (FromEnv env) s (saveContext u s) := saveContext_calm u
  obtain ⟨hpc,hpa⟩ := calm_keeps hc ha hpre
  obtain ⟨c,he⟩ := saveContext_eq (s := s) u
  have hexit : Ending M env s (trapAbort M env u s) :=
    (exit_ending hpc hpa hs ERROR).after (calm_stays hc hpre)
  unfold trap
  split
  · exact (clock_switches hc ha u).ending
  · exact (syscallDispatch_ending hpc hpa hs).after (calm_stays hc hpre)
  · unfold trapMemory
    rw [he] at hpre hpc hpa ⊢
    split
    · rename_i hg
      have hop : Op M (FromEnv env) true {s with userContext := c} _ :=
        .respace env _ _ (.grow u.addr hg) hpa (fromEnv_space env)
      exact calm_user_ending hc ha (hpre.tail hop)
    · rename_i hg
      exact (processExitCurrent_ending hpc hpa hs ERROR (.grow u.addr (by simpa using hg))).after
        (calm_stays hc hpre)
  · exact hexit
  · exact hexit
  · exact calm_user_ending hc ha (trapTtyReceive_calm hc u)
  · exact calm_user_ending hc ha (trapTtyTransmit_calm hc u
      (fun _ => fromEnv_other (by simp) (by simp)))
  · exact calm_user_ending hc ha .refl
  · exact calm_user_ending hc ha .refl

/-- A resumed call, from the state in which its stack has been taken up. -/
theorem begun_ending (hc : Coherent M s) (hr : Runnable s)
    (hl : ∀ id g,(s.kernelContext s.currentProcess).point≠.acquire id g)
    (hn : (s.tty s.currentProcess).readLine=none)
    (hf : ∀ {v},v=s.setKernelContext s.currentProcess ⟨s.currentProcess,.executing⟩ →
      Coherent M v → Active v → Parted M env v f) : Ending M env s (finish caller f) := by
  have hop : Op M (FromEnv env) true s _ := .begin hr hl hn
  have hvc := op_coherent hc hop
  have hva := taken_active hr
  exact (finish_ending hvc hva (hf rfl hvc hva)).after (stays_op hop rfl)

/-- A resumed call that takes up its stack together with its result. -/
theorem resumed_ending (hc : Coherent M s) (hop : Op M (FromEnv env) true s t) (ha : Active t)
    (u : UserContext) : Ending M env s (trapKernelReturn caller u t) := by
  have hd : Calm M (FromEnv env) t _ ∧ _ := trapKernelReturn_done (op_coherent hc hop) ha caller u
  exact (calm_stays hc (hd.1.head hop)).ending

/-- The continuation of a saved kernel stack. -/
theorem resume_ending (h : Settled M s) (hcpu : s.cpu=.kernel) (hs : env.switchOk=true) :
    Ending M env s (resume M env s) := by
  obtain ⟨hr,hne⟩ := h.kernel hcpu
  have hc := h.toCoherent
  have hcur := hc.ready.current_live
  have hpoint := hc.saved.point _ hcur
  have hidle : (s.kernelContext s.currentProcess).point≠.boot →
      (s.kernelContext s.currentProcess).point≠.clock → s.currentProcess≠s.idleProcess := by
    intro hb hk he
    rcases hc.saved.idle with hi|hi|hi <;> rw [←he] at hi
    · exact hne hi
    · exact hb hi
    · exact hk hi
  have huser : (∀ id g,(s.kernelContext s.currentProcess).point≠.acquire id g) →
      (s.tty s.currentProcess).readLine=none → ∀ u,Ending M env s
        (returnToUser u (s.setKernelContext s.currentProcess ⟨s.currentProcess,.executing⟩)) := by
    intro hl hn u
    have hop : Op M (FromEnv env) true s _ := .begin hr hl hn
    exact (calm_user_ending (op_coherent hc hop) (taken_active hr) .refl).after (stays_op hop rfl)
  unfold resume continueAt
  cases hk : (s.kernelContext s.currentProcess).point with
  | executing => exact absurd hk hne
  | boot => exact huser (by simp [hk]) (no_handed hc (by simp [hk])) _
  | clock => exact huser (by simp [hk]) (no_handed hc (by simp [hk])) _
  | fork c =>
    refine begun_ending hc hr (by simp [hk]) (no_handed hc (by simp [hk])) ?_
    rintro v rfl hvc hva
    rw [hk] at hpoint
    unfold sysForkReturn
    split
    · exact show Calm M (FromEnv env) _ _ from .refl
    · rename_i hcne
      exact absurd (show s.currentProcess=c from Eq.symm hpoint) hcne
  | wait statusPtr =>
    refine begun_ending hc hr (by simp [hk]) (no_handed hc (by simp [hk])) ?_
    rintro v rfl hvc hva
    have hop : Op M (FromEnv env) true (s.setKernelContext s.currentProcess
      ⟨s.currentProcess,.executing⟩) _ := .clearWaiting hva
    have hmb : MayBlock _ := ⟨op_active hvc hva hop,hidle (by simp [hk]) (by simp [hk])⟩
    exact Parted.after hvc (.single hop) (waitLoop_parted (op_coherent hvc hop) hmb hs _)
  | delay =>
    refine begun_ending hc hr (by simp [hk]) (no_handed hc (by simp [hk])) ?_
    rintro v rfl hvc hva
    exact show Calm M (FromEnv env) _ _ from .refl
  | ttyRead i =>
    rw [hk] at hpoint
    cases hl : (s.tty s.currentProcess).readLine with
    | none =>
      refine begun_ending hc hr (by simp [hk]) hl ?_
      rintro v rfl hvc hva
      exact ttyReadLoop_parted hvc ⟨hva,hidle (by simp [hk]) (by simp [hk])⟩ hs hpoint
    | some line =>
      have hop : Op M (FromEnv env) true s _ :=
        .takeHanded i line hk hl (fromEnv_other (by simp) (by simp))
      have hact : Active (ttyTakeBytes i line (s.terminals i)
          (s.setKernelContext s.currentProcess ⟨s.currentProcess,.executing⟩)) :=
        {taken_active hr with}
      simp only [ttyReadLoop,Kernel.setKernelContext,hl]
      exact resumed_ending hc hop hact _
  | ttyWrite i len =>
    have hop : Op M (FromEnv env) true s _ := .writeDone i len hr hk
    have hact : Active (((s.setKernelContext s.currentProcess
        ⟨s.currentProcess,.executing⟩).setTty s.currentProcess {s.tty s.currentProcess with
          writeBuf := fun _ => 0, writeLen := 0, writeOffset := 0}).emit
            (.ttyWriteReturned i s.currentProcess len)) := {taken_active hr with}
    exact resumed_ending hc hop hact _
  | pipeRead id buf len g =>
    rw [hk] at hpoint
    refine begun_ending hc hr (by simp [hk]) (no_handed hc (by simp [hk])) ?_
    rintro v rfl hvc hva
    exact pipeReadLoop_parted hvc ⟨hva,hidle (by simp [hk]) (by simp [hk])⟩ hs id buf hpoint
  | acquire id g =>
    obtain ⟨l,ho,hg,hown⟩ := lockAcquireResume_eq hc hr hk
    subst hg
    have hop : Op M (FromEnv env) true s _ := .lockResume id l hr hk ho hown
    have hact : Active ((s.setKernelContext s.currentProcess
        ⟨s.currentProcess,.executing⟩).emit (.lockResumed l.opened s.currentProcess)) :=
      {taken_active hr with}
    have ho' : getObject (s.setKernelContext s.currentProcess ⟨s.currentProcess,.executing⟩) id=
      .lock l := ho
    dsimp only
    unfold lockAcquireResume
    rw [ho']
    dsimp only
    rw [if_pos (show l.owner=(s.setKernelContext s.currentProcess
      ⟨s.currentProcess,.executing⟩).currentProcess from hown)]
    exact resumed_ending hc hop hact _
  | cvarWait cvarId lockId cg lg =>
    refine begun_ending hc hr (by simp [hk]) (no_handed hc (by simp [hk])) ?_
    rintro v rfl hvc hva
    unfold cvarWaitResume
    split
    · exact lockAcquire_parted hvc hva hs _
    · exact show Calm M (FromEnv env) _ _ from .refl
  | exited => exact absurd (hc.saved.exited _ hcur hk) hr.not_zombie

/-- Every step of the kernel is a sequence of operations of the process that
entered, with at most one switch, at its end. -/
theorem kernelStep_ending (h : Settled M s) (hs : env.switchOk=true) {input : Input}
    (he : input.Enabled s) : Ending M env s (kernelStep M env s input) := by
  cases input with
  | trap u => exact trap_ending h.toCoherent (h.user he) hs u
  | resume => exact resume_ending h he hs

end Entries

section Others

variable {allow : Label → Prop} {p : PcbPtr} {w : Kernel}

/-- What a living process that has not ended keeps while another one is current. -/
structure Outside (p : PcbPtr) (s t : Kernel) : Prop where
  /-- The process exists. -/
  live : t.live p=true
  /-- It has not ended. -/
  alive : t.state p≠.zombie
  /-- Idle is the same process. -/
  idle : t.idleProcess=s.idleProcess
  /-- It has the same identifier. -/
  pid : t.pid p=s.pid p
  /-- It is the same process. -/
  birth : t.birth p=s.birth p
  /-- Its table, its break, its stack limit and its kernel stack are the same. -/
  space : t.space p=s.space p
  /-- It goes on at the same place. -/
  saved : t.kernelContext p=s.kernelContext p

/-- Nothing has happened to the process. -/
theorem Outside.refl (hl : s.live p=true) (hz : s.state p≠.zombie) : Outside p s s :=
  ⟨hl,hz,rfl,rfl,rfl,rfl,rfl⟩

/-- One change after the other leaves the process alone. -/
theorem Outside.trans (h : Outside p s t) (h' : Outside p t w) : Outside p s w :=
  ⟨h'.live,h'.alive,h'.idle.trans h.idle,h'.pid.trans h.pid,h'.birth.trans h.birth,
    h'.space.trans h.space,h'.saved.trans h.saved⟩

/-- A process that is made ready has not ended. -/
theorem ready_alive {state : PcbPtr → ProcState} (hz : state p≠.zombie) (q : PcbPtr) :
    Function.update state q .ready p≠.zombie := by
  by_cases hp : p=q
  · rw [hp,Function.update_self]
    decide
  · rwa [Function.update_of_ne hp]

/-- The switch that ends a kernel entry leaves every process alone that has not
ended. -/
theorem dispatch_outside (hc : Coherent M s) (hs : env.switchOk=true) (hl : s.live p=true)
    (hz : s.state p≠.zombie) : Outside p s (dispatchNext M env s) := by
  have he := dispatchNext_eq hc hs
  rw [he]
  refine ⟨hl,?_,rfl,rfl,rfl,rfl,rfl⟩
  dsimp only
  split
  · exact hz
  · by_cases hn : p=nextProcess s
    · rw [hn,Function.update_self]
      decide
    · rwa [Function.update_of_ne hn]

/-- No operation of another process touches a process. -/
theorem op_outside {b : Bool} (hc : Coherent M s) (hl : s.live p=true) (hz : s.state p≠.zombie)
    (hp : p≠s.currentProcess) (hop : Op M allow b s t) : Outside p s t := by
  have hfresh : ∀ {c},s.live c=false → p≠c := by
    rintro c hlc rfl
    rw [hlc] at hl
    cases hl
  have hblock : ∀ a,Function.update s.state s.currentProcess a p≠.zombie := by
    intro a
    rwa [Function.update_of_ne hp]
  have hkc : ∀ k,Function.update s.kernelContext s.currentProcess k p=s.kernelContext p :=
    fun k => Function.update_of_ne hp ..
  have hsp : ∀ v,Function.update s.space s.currentProcess v p=s.space p :=
    fun v => Function.update_of_ne hp ..
  cases hop with
  | dispatch e hsw =>
    exact dispatch_outside hc hsw hl hz
  | forkUndone e c pfns pt m₁ m u ha hcp =>
    obtain ⟨h0,hlc⟩ := callocPcb_fresh hcp
    have hsame : ∀ {α : Type} (f : PcbPtr → α) (x : α),Function.update f c x p=f p :=
      fun _ _ => Function.update_of_ne (hfresh hlc) ..
    rw [destroyed_child hc h0 hlc]
    exact ⟨(hsame _ _).trans ((hsame _ _).trans hl),fun he => hz ((hsame _ _).symm.trans he),rfl,
      hsame _ _,hsame _ _,hsame _ _,hsame _ _⟩
  | spawn e caller c pfns pt m₁ m u hb hcp =>
    obtain ⟨_,hlc⟩ := callocPcb_fresh hcp
    have hsame : ∀ {α : Type} (f : PcbPtr → α) (x : α),Function.update f c x p=f p :=
      fun _ _ => Function.update_of_ne (hfresh hlc) ..
    rw [spawn_eq]
    exact ⟨(hsame _ _).trans hl,fun he => hz ((hsame _ _).symm.trans he),rfl,
      hsame _ _,hsame _ _,hsame _ _,hsame _ _⟩
  | collect statusPtr c ha hch hzc =>
    have hne : p≠c := by
      rintro rfl
      exact hz hzc
    rw [collectChild_eq hc ha statusPtr hch hzc]
    exact ⟨(Function.update_of_ne hne ..).trans hl,hz,rfl,rfl,rfl,rfl,rfl⟩
  | stop c e m v => exact ⟨hl,hz,rfl,rfl,rfl,hsp v,rfl⟩
  | respace e m v => exact ⟨hl,hz,rfl,rfl,rfl,hsp v,rfl⟩
  | zombie status k e m v => exact ⟨hl,hblock _,rfl,rfl,rfl,hsp v,hkc k⟩
  | zombieWake status k e m v => exact ⟨hl,ready_alive (hblock _) _,rfl,rfl,rfl,hsp v,hkc k⟩
  | begin => exact ⟨hl,hz,rfl,rfl,rfl,rfl,hkc _⟩
  | preempt => exact ⟨hl,hz,rfl,rfl,rfl,rfl,hkc _⟩
  | writeDone => exact ⟨hl,hz,rfl,rfl,rfl,rfl,hkc _⟩
  | lockResume => exact ⟨hl,hz,rfl,rfl,rfl,rfl,hkc _⟩
  | takeHanded => exact ⟨hl,hz,rfl,rfl,rfl,rfl,hkc _⟩
  | sleepOver q => exact ⟨hl,ready_alive hz q,rfl,rfl,rfl,rfl,rfl⟩
  | requeue => exact ⟨hl,ready_alive hz _,rfl,rfl,rfl,rfl,rfl⟩
  | handOff i l w => exact ⟨hl,ready_alive hz w,rfl,rfl,rfl,rfl,rfl⟩
  | wake q w => exact ⟨hl,ready_alive hz w,rfl,rfl,rfl,rfl,rfl⟩
  | deliver i line r => exact ⟨hl,ready_alive hz r,rfl,rfl,rfl,rfl,rfl⟩
  | transmitLast i => exact ⟨hl,ready_alive hz _,rfl,rfl,rfl,rfl,rfl⟩
  | transmitNext i => exact ⟨hl,ready_alive hz _,rfl,rfl,rfl,rfl,rfl⟩
  | blockDelay => exact ⟨hl,hblock _,rfl,rfl,rfl,rfl,hkc _⟩
  | blockChild => exact ⟨hl,hblock _,rfl,rfl,rfl,rfl,hkc _⟩
  | blockPipe => exact ⟨hl,hblock _,rfl,rfl,rfl,rfl,hkc _⟩
  | blockLock => exact ⟨hl,hblock _,rfl,rfl,rfl,rfl,hkc _⟩
  | blockCvar => exact ⟨hl,hblock _,rfl,rfl,rfl,rfl,hkc _⟩
  | blockRead => exact ⟨hl,hblock _,rfl,rfl,rfl,rfl,hkc _⟩
  | startWrite => exact ⟨hl,hblock _,rfl,rfl,rfl,rfl,hkc _⟩
  | queueWrite => exact ⟨hl,hblock _,rfl,rfl,rfl,rfl,hkc _⟩
  | _ => exact ⟨hl,hz,rfl,rfl,rfl,rfl,rfl⟩

/-- No kernel entry of another process touches a process. -/
theorem kernelStep_outside (h : Settled M s) (hs : env.switchOk=true) {input : Input}
    (he : input.Enabled s) (hl : s.live p=true) (hz : s.state p≠.zombie)
    (hp : s.currentProcess≠p) : Outside p s (kernelStep M env s input) := by
  obtain ⟨x,hx,hend⟩ := kernelStep_ending h hs he
  have hstay : Outside p s x := by
    refine hx.invariant (P := Outside p s) h.toCoherent (.refl hl hz)
      (fun b v w hc hcur hv hop _ => ?_)
    have hne : p≠v.currentProcess := by
      rw [hcur]
      exact hp.symm
    exact hv.trans (op_outside hc hv.live hv.alive hne hop)
  rcases hend with hend|hend
  · rw [hend]
    exact hstay
  · rw [hend]
    exact hstay.trans (dispatch_outside (hx.coherent h.toCoherent) hs hstay.live hstay.alive)

end Others

end Yalnix.Switching

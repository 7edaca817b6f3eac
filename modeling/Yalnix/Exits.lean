import Yalnix.Halting
import Yalnix.ClockTicks

/-!
# What the end of a process does

ProcessExitCurrent goes through the children, through the object table and to
the scheduler. What comes out can be said at once: the children lose their
parent, each lock goes to its first waiter, a parent in Wait is woken, and the
first process in line goes on.
-/

namespace Yalnix.Exits

open Framework FrameTable KernelState Scheduling Ipc Terminals ProcessLifetime ProgramLoading
open Syscalls Traps KernelStart Coherence Operations OperationCoherence StepOperations
open CallOperations RunInvariants Traces KernelEntries Continuations ClockTicks

variable {M : Machine} {env : Env} {s t z : Kernel} {p q : PcbPtr} {u : UserContext} {i : ℕ}
  {l : List ℕ} {status : ℤ}

section Locks

/-- The object is a lock of a process. -/
def ownLock (p : PcbPtr) : IpcObject → Bool
  | .lock k => decide (k.owner=p)
  | _ => false

/-- A lock passes to another owner. -/
def passTo (w : PcbPtr) : IpcObject → IpcObject
  | .lock k => .lock {k with owner := w}
  | o => o

/-- The locks of a process among some entries of the object table. -/
def estate (p : PcbPtr) (s : Kernel) (l : List ℕ) : List ℕ :=
  l.filter (fun i => ownLock p (s.objects i))

/-- Those who wait for these locks and are first in line. -/
def heirs (p : PcbPtr) (s : Kernel) (l : List ℕ) : List PcbPtr :=
  (estate p s l).filterMap (fun i => (s.queue (.lockWaiters i)).head?)

/-- The objects when these locks have been passed on. -/
def passedObjects (p : PcbPtr) (s : Kernel) (l : List ℕ) (i : ℕ) : IpcObject :=
  if i∈estate p s l then passTo ((s.queue (.lockWaiters i)).headD 0) (s.objects i) else s.objects i

/-- The queues when these locks have been passed on. -/
def passedQueues (p : PcbPtr) (s : Kernel) (l : List ℕ) : QueueAddr → List PcbPtr
  | .lockWaiters i => if i∈estate p s l then (s.queue (.lockWaiters i)).tail
    else s.queue (.lockWaiters i)
  | q => s.queue q

/-- The kernel when these locks have been passed on. -/
def passedOn (p : PcbPtr) (l : List ℕ) (log : List Event) (s : Kernel) : Kernel :=
  {s with
    objects := passedObjects p s l
    queue := passedQueues p s l
    blockQueue := fun q => if q∈heirs p s l then none else s.blockQueue q
    userContext := fun q =>
      if q∈heirs p s l then (s.userContext q).setResult SUCCESS else s.userContext q
    state := fun q => if q∈heirs p s l then .ready else s.state q
    readyQueue := s.readyQueue++heirs p s l
    log := log}

/-- A process that owns no lock passes nothing on. -/
theorem passedOn_none (h : estate p s l=[]) : passedOn p l s.log s=s := by
  have hh : heirs p s l=[] := by
    unfold heirs
    rw [h]
    rfl
  have hq : passedQueues p s l=s.queue := by
    funext q
    cases q with
    | lockWaiters i =>
      dsimp only [passedQueues]
      rw [h,if_neg List.not_mem_nil]
    | _ => rfl
  have ho : passedObjects p s l=s.objects := by
    funext i
    unfold passedObjects
    rw [h,if_neg List.not_mem_nil]
  unfold passedOn
  rw [hh,hq,ho,List.append_nil]
  rfl

/-- A lock of the process is the only one in its slot. -/
theorem estate_single (h : ownLock p (s.objects i)=true) : estate p s [i]=[i] := by
  unfold estate
  exact List.filter_eq_self.2 (fun j hj => by rwa [List.mem_singleton.1 hj])

/-- Releasing one lock changes one object. -/
theorem passedObjects_single (h : ownLock p (s.objects i)=true) :
    passedObjects p s [i]=Function.update s.objects i
      (passTo ((s.queue (.lockWaiters i)).headD 0) (s.objects i)) := by
  funext j
  unfold passedObjects
  rw [estate_single h]
  by_cases hj : j=i
  · rw [hj,Function.update_self,if_pos (List.mem_singleton.2 rfl)]
  · rw [Function.update_of_ne hj,if_neg (fun hm => hj (List.mem_singleton.1 hm))]

/-- Releasing one lock changes one queue. -/
theorem passedQueues_single (h : ownLock p (s.objects i)=true) :
    passedQueues p s [i]=Function.update s.queue (.lockWaiters i)
      (s.queue (.lockWaiters i)).tail := by
  funext q
  by_cases hq : q=.lockWaiters i
  · subst hq
    rw [Function.update_self]
    dsimp only [passedQueues]
    rw [estate_single h,if_pos (List.mem_singleton.2 rfl)]
  · rw [Function.update_of_ne hq]
    cases q with
    | lockWaiters j =>
      dsimp only [passedQueues]
      rw [estate_single h,if_neg (fun hm => hq (by rw [List.mem_singleton.1 hm]))]
    | _ => rfl

/-- A function that changes for one process. -/
theorem if_single {α : Type} (f : PcbPtr → α) (g : PcbPtr → α) (w : PcbPtr) :
    (fun q => if q∈[w] then g q else f q)=Function.update f w (g w) := by
  funext q
  by_cases hq : q=w
  · rw [hq,Function.update_self,if_pos (List.mem_singleton.2 rfl)]
  · rw [Function.update_of_ne hq,if_neg (fun hm => hq (List.mem_singleton.1 hm))]

/-- A lock that is released is passed on. -/
theorem lockRelease_exact (hc : Coherent M s) {k : LockState} (ho : s.objects i=.lock k)
    (hp : k.owner=p) : ∃ log,lockRelease i k s=passedOn p [i] log s := by
  have hown : ownLock p (s.objects i)=true := by
    rw [ho]
    exact decide_eq_true hp
  have hobj := passedObjects_single hown
  have hque := passedQueues_single hown
  rw [ho] at hobj
  unfold lockRelease wakeOne
  cases hq : (clearOwner i k s).queue (.lockWaiters i) with
  | nil =>
    have hq' : s.queue (.lockWaiters i)=[] := hq
    have hheirs : heirs p s [i]=[] := by
      unfold heirs
      rw [estate_single hown,List.filterMap_cons,hq']
      rfl
    rw [hq'] at hobj hque
    dsimp only
    rw [if_neg (by simp)]
    refine ⟨s.log++[.lockReleased k.opened k.owner],?_⟩
    unfold passedOn clearOwner
    rw [hheirs,hobj,hque,List.append_nil]
    have hsame : Function.update s.queue (.lockWaiters i) ([] : List PcbPtr).tail=s.queue := by
      rw [List.tail_nil,←hq',Function.update_eq_self]
    rw [hsame]
    rfl
  | cons w rest =>
    have hq' : s.queue (.lockWaiters i)=w::rest := hq
    have hm : w∈s.queue (.lockWaiters i) := by
      rw [hq']
      exact List.mem_cons_self
    have hb := hc.block.blocked hm
    have h0 := hc.ready.ne_null (hc.block.queue_live _ w hm)
    have hheirs : heirs p s [i]=[w] := by
      unfold heirs
      rw [estate_single hown,List.filterMap_cons,hq']
      rfl
    have he := processMakeReady_eq (s := {clearOwner i k s with
      queue := Function.update (clearOwner i k s).queue (.lockWaiters i) rest
      blockQueue := Function.update (clearOwner i k s).blockQueue w none
      userContext := Function.update (clearOwner i k s).userContext w
        (((clearOwner i k s).userContext w).setResult SUCCESS)
      log := (clearOwner i k s).log++[.woken w (.pop (.lockWaiters i))]}) h0
      (hc.ready.ne_idle (by rw [hb]; decide)) (show s.state w≠.zombie by rw [hb]; decide)
      (hc.ready.unlinked (by rw [hb]; decide))
    rw [hq'] at hobj hque
    dsimp only
    rw [if_pos h0,he]
    refine ⟨s.log++[.lockReleased k.opened k.owner]++[.woken w (.pop (.lockWaiters i))]++
      [.linked w]++[.lockGranted k.opened w],?_⟩
    unfold passedOn
    rw [hheirs,hobj,hque,if_single s.state (fun _ => .ready),if_single s.blockQueue (fun _ => none),
      if_single s.userContext (fun q => (s.userContext q).setResult SUCCESS)]
    dsimp only [grantLock,markReady,clearOwner,passTo,List.headD_cons,List.tail_cons]
    rw [Function.update_idem]

/-- Two parts of the object table. -/
theorem estate_append (l l' : List ℕ) : estate p s (l++l')=estate p s l++estate p s l' :=
  List.filter_append ..

/-- Those who inherit from both. -/
theorem heirs_append (l l' : List ℕ) : heirs p s (l++l')=heirs p s l++heirs p s l' := by
  unfold heirs
  rw [estate_append,List.filterMap_append]

/-- The locks are among the entries. -/
theorem estate_subset {j : ℕ} (h : j∈estate p s l) : j∈l := (List.mem_filter.1 h).1

/-- Other entries are as they were. -/
theorem passedOn_other {log : List Event} {j : ℕ} (hj : j∉l) :
    (passedOn p l log s).objects j=s.objects j ∧
      (passedOn p l log s).queue (.lockWaiters j)=s.queue (.lockWaiters j) :=
  ⟨if_neg (fun hm => hj (estate_subset hm)),if_neg (fun hm => hj (estate_subset hm))⟩

/-- What is passed on first does not matter for other entries. -/
theorem estate_passedOn {l' : List ℕ} {log : List Event} (hd : ∀ j∈l',j∉l) :
    estate p (passedOn p l log s) l'=estate p s l' ∧
      heirs p (passedOn p l log s) l'=heirs p s l' := by
  have he : estate p (passedOn p l log s) l'=estate p s l' :=
    List.filter_congr (fun j hj => by rw [(passedOn_other (hd j hj)).1])
  refine ⟨he,?_⟩
  unfold heirs
  rw [he]
  refine List.filterMap_congr (fun j hj => ?_)
  rw [(passedOn_other (hd j (estate_subset hj))).2]

/-- A choice between two lists goes through an append. -/
theorem if_append {α : Type} {h h' : List PcbPtr} (a : PcbPtr → α) (f : PcbPtr → α)
    (g : PcbPtr → α → α) (hidem : ∀ q,g q (a q)=a q) (hone : ∀ q,g q (f q)=a q) :
    (fun q => if q∈h' then g q (if q∈h then a q else f q) else if q∈h then a q else f q)=
      fun q => if q∈h++h' then a q else f q := by
  funext q
  by_cases hq : q∈h
  · rw [if_pos hq,if_pos (List.mem_append_left _ hq),hidem,ite_self]
  · rw [if_neg hq]
    by_cases hq' : q∈h'
    · rw [if_pos hq',if_pos (List.mem_append_right _ hq'),hone]
    · rw [if_neg hq',if_neg (fun hm => (List.mem_append.1 hm).elim hq hq')]

/-- Locks are passed on entry by entry. -/
theorem passedOn_append {l' : List ℕ} {log log' : List Event} (hd : ∀ j∈l',j∉l) :
    passedOn p l' log' (passedOn p l log s)=passedOn p (l++l') log' s := by
  obtain ⟨he,hh⟩ := @estate_passedOn s p _ _ log hd
  have hobj : passedObjects p (passedOn p l log s) l'=passedObjects p s (l++l') := by
    funext j
    unfold passedObjects
    rw [he,estate_append]
    by_cases hj : j∈estate p s l'
    · obtain ⟨ho,hq⟩ := @passedOn_other s p _ log _ (hd j (estate_subset hj))
      rw [if_pos hj,if_pos (List.mem_append_right _ hj),ho,hq]
    · rw [if_neg hj]
      by_cases hj' : j∈estate p s l
      · rw [if_pos (List.mem_append_left _ hj')]
        exact if_pos hj'
      · rw [if_neg (fun hm => (List.mem_append.1 hm).elim hj' hj)]
        exact if_neg hj'
  have hque : passedQueues p (passedOn p l log s) l'=passedQueues p s (l++l') := by
    funext q
    cases q with
    | lockWaiters j =>
      dsimp only [passedQueues]
      rw [he,estate_append]
      by_cases hj : j∈estate p s l'
      · obtain ⟨_,hq⟩ := @passedOn_other s p _ log _ (hd j (estate_subset hj))
        rw [if_pos hj,if_pos (List.mem_append_right _ hj),hq]
      · rw [if_neg hj]
        by_cases hj' : j∈estate p s l
        · rw [if_pos (List.mem_append_left _ hj')]
          exact if_pos hj'
        · rw [if_neg (fun hm => (List.mem_append.1 hm).elim hj' hj)]
          exact if_neg hj'
    | _ => rfl
  unfold passedOn at hobj hque hh ⊢
  rw [hobj,hque,hh,heirs_append]
  dsimp only
  rw [if_append (fun _ => none) s.blockQueue (fun _ _ => none) (fun _ => rfl) (fun _ => rfl),
    if_append (fun _ => .ready) s.state (fun _ _ => .ready) (fun _ => rfl) (fun _ => rfl),
    if_append (fun q => (s.userContext q).setResult SUCCESS) s.userContext
      (fun _ x => x.setResult SUCCESS) (fun q => ?_) (fun _ => rfl),List.append_assoc]
  unfold UserContext.setResult
  dsimp only
  rw [Function.update_idem]

/-- One round of the loop over the object table. -/
theorem releaseIfOwned_exact (hc : Coherent M s) (p : PcbPtr) (i : ℕ) :
    ∃ log,releaseIfOwned p s i=passedOn p [i] log s := by
  have hnone : ∀ h : ownLock p (s.objects i)=false,s=passedOn p [i] s.log s := by
    intro h
    refine (passedOn_none (List.filter_eq_nil_iff.2 (fun j hj => ?_))).symm
    rw [List.mem_singleton.1 hj,h]
    decide
  unfold releaseIfOwned
  split
  · rename_i k ho
    split
    · rename_i hp
      exact lockRelease_exact hc ho hp
    · rename_i hp
      refine ⟨_,hnone ?_⟩
      rw [ho]
      exact decide_eq_false hp
  · rename_i hn
    refine ⟨_,hnone ?_⟩
    unfold ownLock
    split
    · rename_i k ho
      exact absurd ho (hn k)
    · rfl

/-- IpcProcessExit passes on all locks at once. -/
theorem releaseLoop_exact (hc : Coherent M s) (ha : Active s) (hl : l.Nodup) :
    ∃ log,l.foldl (releaseIfOwned s.currentProcess) s=passedOn s.currentProcess l log s := by
  induction l generalizing s with
  | nil => exact ⟨s.log,(passedOn_none rfl).symm⟩
  | cons i rest ih =>
    rw [List.nodup_cons] at hl
    have hr : Calm M (fun _ => True) s _ ∧ _ := releaseIfOwned_calm hc ha i
    obtain ⟨hcalm,hf,_⟩ := hr
    obtain ⟨hc',ha'⟩ := calm_keeps hc ha hcalm
    obtain ⟨log',hrest⟩ := ih hc' ha' hl.2
    obtain ⟨log,hone⟩ := releaseIfOwned_exact hc s.currentProcess i
    rw [hf.current] at hrest
    refine ⟨log',?_⟩
    rw [List.foldl_cons,hrest,hone]
    refine passedOn_append (fun j hj hm => ?_)
    rw [List.mem_singleton.1 hm] at hj
    exact hl.1 hj

end Locks

section Ends

/-- The children lose their parent. -/
theorem orphan_exact (p : PcbPtr) (l : List PcbPtr) (hl : l=s.children p) :
    orphanChildren p l s={s with
      children := Function.update s.children p []
      parent := fun c => if c∈l then 0 else s.parent c} := by
  induction l generalizing s with
  | nil =>
    unfold orphanChildren
    simp only [List.not_mem_nil,if_false]
    rw [hl,Function.update_eq_self]
  | cons c rest ih =>
    have hrest : rest=(Function.update s.children p rest) p := by
      rw [Function.update_self]
    unfold orphanChildren
    rw [@ih {s with
      children := Function.update s.children p rest
      parent := Function.update s.parent c 0} hrest]
    dsimp only
    rw [Function.update_idem,update_cons]

/-- The parent of the current process, if it waits for a child. -/
def waitingParent (s : Kernel) : List PcbPtr :=
  if s.parent s.currentProcess≠0 ∧ s.waitingForChild (s.parent s.currentProcess)=true then
    [s.parent s.currentProcess]
  else []

/-- It depends on the parent and the flags of Wait only. -/
theorem waitingParent_same (hp : t.parent t.currentProcess=s.parent s.currentProcess)
    (hw : t.waitingForChild=s.waitingForChild) : waitingParent t=waitingParent s := by
  unfold waitingParent
  simp only [hp,hw]

/-- The current process becomes a zombie. -/
theorem becomeZombie_exact (hc : Coherent M s) (hb : MayBlock s) (status : ℤ) (k : KernelContext) :
    ∃ log,becomeZombie status k s={s with
      exitStatus := Function.update s.exitStatus s.currentProcess status
      state := fun q => if q∈waitingParent s then .ready
        else Function.update s.state s.currentProcess .zombie q
      kernelContext := Function.update s.kernelContext s.currentProcess k
      waitingForChild := fun q => if q∈waitingParent s then false else s.waitingForChild q
      readyQueue := s.readyQueue++waitingParent s
      log := log} := by
  unfold becomeZombie waitingParent
  split
  · rename_i hp
    have hlive := (hc.family.parent_child _ hc.ready.current_live hp.1).1
    have hst := hc.block.reasons.blocked _ .child hlive hp.2
    have hne := blocked_ne_current hb.toActive hst
    rw [processMakeReady_eq,if_single (Function.update s.state s.currentProcess .zombie)
      (fun _ => .ready),if_single s.waitingForChild (fun _ => false)]
    · exact ⟨_,rfl⟩
    · exact hp.1
    · exact hc.ready.ne_idle (by rw [hst]; decide)
    · dsimp only
      rw [Function.update_of_ne hne,hst]
      decide
    · exact hc.ready.unlinked (by rw [hst]; decide)
  · simp only [List.not_mem_nil,if_false,List.append_nil]
    exact ⟨_,rfl⟩

/-- Those whom the end of the current process or the scheduler behind it makes ready. -/
def raised (M : Machine) (s : Kernel) : List PcbPtr :=
  heirs s.currentProcess s (List.range IPC_MAX_OBJECTS)++waitingParent s++due M s

/-- The process that goes on. -/
def successor (M : Machine) (s : Kernel) : PcbPtr :=
  (s.readyQueue++raised M s).headD s.idleProcess

/-- The kernel when the current process has ended. -/
def exitState (M : Machine) (status : ℤ) (s : Kernel) : Kernel :=
  {passedOn s.currentProcess (List.range IPC_MAX_OBJECTS) s.log s with
    exitStatus := Function.update s.exitStatus s.currentProcess status
    state := fun q => if q=successor M s then .running else if q=s.currentProcess then .zombie
      else if q∈raised M s then .ready else s.state q
    kernelContext := Function.update s.kernelContext s.currentProcess ⟨s.currentProcess,.exited⟩
    parent := fun c => if c∈s.children s.currentProcess then 0 else s.parent c
    children := Function.update s.children s.currentProcess []
    waitingForChild := fun q => if q∈waitingParent s then false else s.waitingForChild q
    delayUntil := fun q => if q∈due M s then 0 else s.delayUntil q
    currentProcess := successor M s
    readyQueue := (s.readyQueue++raised M s).tail
    memory := {s.memory with
      kernelRegion0Pt := installKernelStack M (s.space (successor M s)).kernelStackPfns
        (List.range M.kernelStackPages) s.memory.kernelRegion0Pt}
    cpu := .kernel}

/-- The heirs are blocked on a lock. -/
theorem mem_heirs (h : q∈heirs p s l) : ∃ i,q∈s.queue (.lockWaiters i) := by
  obtain ⟨i,_,hq⟩ := List.mem_filterMap.1 h
  exact ⟨i,List.mem_of_mem_head? hq⟩

/-- A parent that is woken is blocked in Wait. -/
theorem mem_waitingParent (hc : Coherent M s) (h : q∈waitingParent s) :
    s.live q=true ∧ s.waitingForChild q=true := by
  unfold waitingParent at h
  split at h
  · rename_i hp
    rw [List.mem_singleton.1 h]
    exact ⟨(hc.family.parent_child _ hc.ready.current_live hp.1).1,hp.2⟩
  · cases h

/-- Whose delay is over is blocked with a deadline. -/
theorem mem_due (hc : Coherent M s) (h : q∈due M s) :
    s.live q=true ∧ s.state q=.blocked ∧ s.delayUntil q≠0 := by
  obtain ⟨i,hf,hq⟩ := List.mem_map.1 h
  obtain ⟨h0,hb,hd,_⟩ := of_decide_eq_true (List.mem_filter.1 hf).2
  rw [hq] at h0 hb hd
  have hl := (hc.table i (by rwa [hq])).1
  rw [hq] at hl
  exact ⟨hl,hb,hd⟩

/-- Whoever is made ready was blocked. -/
theorem raised_blocked (hc : Coherent M s) (h : q∈raised M s) : s.state q=.blocked := by
  unfold raised at h
  rcases List.mem_append.1 h with h|h
  · rcases List.mem_append.1 h with h|h
    · obtain ⟨i,hq⟩ := mem_heirs h
      exact hc.block.blocked hq
    · obtain ⟨hl,hw⟩ := mem_waitingParent hc h
      exact hc.block.reasons.blocked q .child hl hw
  · exact (mem_due hc h).2.1

/-- Nobody who is made ready is current. -/
theorem raised_ne_current (hc : Coherent M s) (ha : Active s) (h : q∈raised M s) :
    q≠s.currentProcess :=
  blocked_ne_current ha (raised_blocked hc h)

/-- The kernel when the current process has ended and the scheduler has not run. -/
def endedState (status : ℤ) (log : List Event) (s : Kernel) : Kernel :=
  {passedOn s.currentProcess (List.range IPC_MAX_OBJECTS) s.log s with
    exitStatus := Function.update s.exitStatus s.currentProcess status
    state := fun q => if q=s.currentProcess then .zombie
      else if q∈heirs s.currentProcess s (List.range IPC_MAX_OBJECTS)++waitingParent s then .ready
      else s.state q
    kernelContext := Function.update s.kernelContext s.currentProcess ⟨s.currentProcess,.exited⟩
    parent := fun c => if c∈s.children s.currentProcess then 0 else s.parent c
    children := Function.update s.children s.currentProcess []
    waitingForChild := fun q => if q∈waitingParent s then false else s.waitingForChild q
    readyQueue := s.readyQueue++heirs s.currentProcess s (List.range IPC_MAX_OBJECTS)++
      waitingParent s
    log := log}

/-- What ProcessExitCurrent does before it calls the scheduler. -/
theorem ended_exact (hc : Coherent M s) (ha : Active s) (hi : s.currentProcess≠s.idleProcess)
    (status : ℤ) : ∃ log,becomeZombie status ⟨s.currentProcess,.exited⟩
      (ipcProcessExit s.currentProcess
        (orphanChildren s.currentProcess (s.children s.currentProcess) s))=endedState status log s ∧
      Coherent M (endedState status log s) := by
  have ho : Calm M (fun _ => True) s _ ∧ _ := orphanChildren_calm hc ha rfl (fun _ _ => trivial)
  obtain ⟨hoc,hoa⟩ := calm_keeps hc ha ho.1
  obtain ⟨log₁,hrel⟩ := releaseLoop_exact hoc hoa (l := List.range IPC_MAX_OBJECTS) List.nodup_range
  have hr : Calm M (fun _ => True) _ _ ∧ _ := releaseLoop_calm hoc hoa (List.range IPC_MAX_OBJECTS)
  rw [hrel] at hr
  rw [orphan_exact s.currentProcess _ rfl] at hrel hr ho hoc hoa ⊢
  obtain ⟨hrel',_,hown⟩ := hr
  obtain ⟨hzc,hza⟩ := calm_keeps hoc hoa hrel'
  have hmb : MayBlock _ := ⟨hza,hi⟩
  have hpar : (if s.currentProcess∈s.children s.currentProcess then 0
      else s.parent s.currentProcess)=s.parent s.currentProcess :=
    if_neg (hc.family.irrefl _ hc.ready.current_live)
  obtain ⟨log,hbecome⟩ := becomeZombie_exact hzc hmb status ⟨s.currentProcess,.exited⟩
  have hop := @becomeZombie_op M (fun _ => True) _ (sampleEnv 0 0) hzc hmb
    ⟨s.currentProcess,.exited⟩ _ _ status rfl ho.2 (fun i k hl hk => ?_) trivial trivial .kept
  · have hwp : waitingParent (passedOn s.currentProcess (List.range IPC_MAX_OBJECTS) log₁ {s with
        children := Function.update s.children s.currentProcess []
        parent := fun c => if c∈s.children s.currentProcess then 0 else s.parent c})=
          waitingParent s := waitingParent_same hpar rfl
    have hst : (fun q => if q∈waitingParent s then ProcState.ready
        else Function.update (fun q =>
          if q∈heirs s.currentProcess s (List.range IPC_MAX_OBJECTS) then .ready else s.state q)
          s.currentProcess .zombie q)=fun q => if q=s.currentProcess then .zombie
        else if q∈heirs s.currentProcess s (List.range IPC_MAX_OBJECTS)++waitingParent s then .ready
        else s.state q := by
      funext q
      by_cases hq : q=s.currentProcess
      · have hnot : q∉waitingParent s := fun hm => raised_ne_current (M := M) hc ha
          (List.mem_append_left _ (List.mem_append_right _ hm)) hq
        rw [if_neg hnot,if_pos hq,hq,Function.update_self]
      · rw [if_neg hq,Function.update_of_ne hq]
        by_cases hw : q∈waitingParent s
        · rw [if_pos hw,if_pos (List.mem_append_right _ hw)]
        · rw [if_neg hw]
          exact if_congr (by simp [hw]) rfl rfl
    have heq : becomeZombie status ⟨s.currentProcess,.exited⟩
        (ipcProcessExit s.currentProcess {s with
        children := Function.update s.children s.currentProcess []
        parent := fun c => if c∈s.children s.currentProcess then 0 else s.parent c})=
          endedState status log s := by
      unfold ipcProcessExit endedState
      rw [hrel,hbecome,hwp,←hst]
      rfl
    refine ⟨log,heq,?_⟩
    unfold ipcProcessExit at heq
    rw [hrel] at heq
    rw [←heq]
    have hcoh := op_coherent hzc hop
    rwa [Function.update_eq_self] at hcoh
  · have hlt := hzc.owner.lt (i := i) (by rw [hl]; simp)
    exact (hown i k hl hk).1 (List.mem_range.2 hlt)

/-- The end of a process does not change whose delay is over. -/
theorem due_ended (hc : Coherent M s) (ha : Active s) (status : ℤ) (log : List Event) :
    due M (endedState status log s)=due M s := by
  refine congrArg (List.map s.processTable) (List.filter_congr (fun i _ => ?_))
  refine decide_eq_decide.2 ⟨?_,?_⟩
  · rintro ⟨h0,hb,hd⟩
    refine ⟨h0,?_,hd⟩
    dsimp only [endedState] at hb
    split at hb
    · cases hb
    · split at hb
      · cases hb
      · exact hb
  · rintro ⟨h0,hb,hd,hle⟩
    refine ⟨h0,?_,hd,hle⟩
    have hlive := (hc.table i h0).1
    have hnot : s.processTable i∉heirs s.currentProcess s (List.range IPC_MAX_OBJECTS)++
        waitingParent s := by
      intro hm
      rcases List.mem_append.1 hm with hm|hm
      · obtain ⟨j,hj⟩ := mem_heirs hm
        have hsame := hc.block.reasons.unique _ .delay (.queue (.lockWaiters j)) hlive hd hj
        cases hsame
      · have hsame := hc.block.reasons.unique _ .delay .child hlive hd (mem_waitingParent hc hm).2
        cases hsame
    exact (if_neg (blocked_ne_current ha hb)).trans ((if_neg hnot).trans hb)

/-- The current process is not put in line again. -/
theorem requeued_ended (status : ℤ) (log : List Event) : requeued (endedState status log s)=[] := by
  refine if_neg (fun h => ?_)
  have hrun : (if s.currentProcess=s.currentProcess then ProcState.zombie
      else if s.currentProcess∈heirs s.currentProcess s (List.range IPC_MAX_OBJECTS)++
        waitingParent s then .ready else s.state s.currentProcess)=.running := h.2
  rw [if_pos rfl] at hrun
  cases hrun

/-- The successor of a process that ends is another process. -/
theorem successor_ne (hc : Coherent M s) (ha : Active s) (hi : s.currentProcess≠s.idleProcess) :
    successor M s≠s.currentProcess := by
  unfold successor
  cases hl : s.readyQueue++raised M s with
  | nil => exact hi.symm
  | cons q rest =>
    have hm : q∈s.readyQueue++raised M s := by
      rw [hl]
      exact List.mem_cons_self
    rintro rfl
    rcases List.mem_append.1 hm with hm|hm
    · exact ha.unlinked hm
    · exact raised_ne_current hc ha hm rfl

/-- ProcessExitCurrent ends the running process in this very step. -/
theorem processExitCurrent_exact (hc : Coherent M s) (ha : Active s) (hs : env.switchOk=true)
    (hi : s.currentProcess≠s.idleProcess) (hn : s.currentProcess≠s.initProcess) (status : ℤ) :
    ∃ log,processExitCurrent M env status s={exitState M status s with log := log} := by
  have h0 : s.currentProcess≠0 := hc.ready.ne_null hc.ready.current_live
  obtain ⟨log,he,hec⟩ := ended_exact hc ha hi status
  obtain ⟨log',hsched⟩ := @schedule_exact M env _ hec hs
  have hline : lineUp M (endedState status log s)=s.readyQueue++raised M s := by
    unfold lineUp
    rw [due_ended hc ha,requeued_ended,List.append_nil]
    unfold raised endedState
    simp only [List.append_assoc]
  have hpick : pick M (endedState status log s)=successor M s := by
    unfold pick
    rw [hline]
    rfl
  have hstate : (fun q => if q=successor M s ∧ q≠s.currentProcess then ProcState.running
      else if q∈due M s++[] then .ready else (endedState status log s).state q)=
        (exitState M status s).state := by
    funext q
    dsimp only [exitState,endedState]
    by_cases hq : q=successor M s
    · rw [if_pos hq,if_pos ⟨hq,by rw [hq]; exact successor_ne hc ha hi⟩]
    · rw [if_neg hq,if_neg (fun h => hq h.1),List.append_nil]
      by_cases hcur : q=s.currentProcess
      · have hnot : q∉due M s := fun hm => raised_ne_current (M := M) hc ha
          (List.mem_append_right _ hm) hcur
        rw [if_neg hnot,if_pos hcur,if_pos hcur]
      · rw [if_neg hcur,if_neg hcur]
        unfold raised
        by_cases hd : q∈due M s
        · rw [if_pos hd,if_pos (List.mem_append_right _ hd)]
        · rw [if_neg hd]
          exact if_congr (by simp [hd]) rfl rfl
  have hregion : pickedRegion0 M (endedState status log s)=installKernelStack M
      (s.space (successor M s)).kernelStackPfns (List.range M.kernelStackPages)
      s.memory.kernelRegion0Pt := by
    unfold pickedRegion0
    rw [hpick]
    exact if_neg (successor_ne hc ha hi)
  unfold processExitCurrent
  rw [if_neg (not_or.2 ⟨h0,hi⟩),if_neg hn,he]
  unfold leaveZombie
  rw [if_pos hs,hsched,due_ended hc ha,requeued_ended,hpick,hline,hregion]
  refine ⟨log',?_⟩
  change {endedState status log s with
    state := fun q => if q=successor M s ∧ q≠s.currentProcess then ProcState.running
      else if q∈due M s++[] then .ready else (endedState status log s).state q
    delayUntil := fun q => if q∈due M s then 0 else s.delayUntil q
    currentProcess := successor M s
    readyQueue := (s.readyQueue++raised M s).tail
    memory := {s.memory with
      kernelRegion0Pt := installKernelStack M (s.space (successor M s)).kernelStackPfns
        (List.range M.kernelStackPages) s.memory.kernelRegion0Pt}
    cpu := .kernel
    log := log'}=_
  rw [hstate]
  rfl

end Ends

section Runs

/-- In every run the end of a process other than idle and init does exactly this.
Exit and an exception leave the pages of the process as they are, a fault that
its stack cannot grow to has mapped pages before, and an Exec that fails behind
the tear-down has replaced them. -/
theorem exit_exact (h : Reachable M s) (hu : s.cpu=.user) (hs : env.switchOk=true)
    (hf : Halting.Fatal M env s u) (hi : s.currentProcess≠s.idleProcess)
    (hn : s.currentProcess≠s.initProcess) :
    ∃ w log,Halting.Remains M env s u w ∧
      kernelStep M env s (.trap u)={exitState M (Halting.endStatus M u) w with log := log} := by
  have hset := reachable_settled h
  have hc := hset.toCoherent
  have ha := hset.user hu
  obtain ⟨w,he,hw⟩ := Halting.fatal_exit (hc.ready.ne_null hc.ready.current_live) hf
  obtain ⟨hcur,hidle,hinit⟩ := hw.actors
  have hwc : Coherent M w := by
    rw [hw.rest]
    exact {hc with}
  have hwa : Active w := by
    rw [hw.rest]
    exact {ha with}
  obtain ⟨log,hexit⟩ := processExitCurrent_exact hwc hwa hs (by rwa [hcur,hidle])
    (by rwa [hcur,hinit]) (Halting.endStatus M u)
  refine ⟨w,log,hw,?_⟩
  dsimp only [kernelStep]
  rw [he,hexit]

/-- The lock of a child that exits goes to init, which goes on. -/
theorem exit_exact_heir : ∃ s,Reachable sampleMachine s ∧ s.currentProcess=3 ∧
    (kernelStep sampleMachine (sampleEnv 0 0) s (callInput 3 7 0 0).2).currentProcess=2 ∧
    (kernelStep sampleMachine (sampleEnv 0 0) s (callInput 3 7 0 0).2).exitStatus 3=7 := by
  obtain ⟨s,hr,hq⟩ := replay_reachable sampleBoot_user
    [forkInput 3 2,callInput 13 0x105000 0 0,tickInput,resumeInput,callInput 14 0 0 0,tickInput,
      resumeInput,callInput 14 0 0 0,resumeInput]
    (fun s => s.cpu=.user ∧ s.currentProcess=3 ∧ s.idleProcess=1 ∧ s.initProcess=2 ∧
      successor sampleMachine s=2 ∧ heirs 3 s (List.range IPC_MAX_OBJECTS)=[2])
    (by decide +kernel)
  simp only [decide_eq_true_eq] at hq
  obtain ⟨hu,hcur,hidle,hinit,hsucc,_⟩ := hq
  obtain ⟨w,log,hw,he⟩ := exit_exact hr hu (rfl : (sampleEnv 0 0).switchOk=true)
    (u := sampleContext .kernel 3 7 0 0) (.inr (.inr (.inr ⟨rfl,.inl rfl⟩)))
    (by rw [hcur,hidle]; decide) (by rw [hcur,hinit]; decide)
  change kernelStep sampleMachine (sampleEnv 0 0) s (callInput 3 7 0 0).2=_ at he
  refine ⟨s,hr,hcur,?_,?_⟩
  · rw [he]
    change successor sampleMachine w=2
    rw [hw.rest]
    exact hsucc
  · rw [he]
    change Function.update w.exitStatus w.currentProcess 7 3=7
    rw [hw.actors.1,hcur,Function.update_self]

end Runs

end Yalnix.Exits

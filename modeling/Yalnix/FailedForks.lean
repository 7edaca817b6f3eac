import Yalnix.ForkCopies
import Yalnix.FrameZero

/-!
# Forks that fail

A fork that fails gives back every frame and every identifier it took, and
leaves the process table, the ready queue and all processes as they were. The
exits before the child is entered are told apart from the failed cloning of the
kernel context, which destroys the child again. Frame zero is absent for
ProcessFreeKernelStack; it belongs to the kernel image and is never given out.
-/

namespace Yalnix.FailedForks

open Framework FrameTable KernelState Scheduling Ipc Terminals ProcessLifetime ProgramLoading
open Syscalls Traps KernelStart Coherence Operations OperationCoherence StepOperations
open CallOperations RunInvariants Traces AddressSpaces FramePartition KernelBreak ScratchPage
open MappedFrames KernelEntries UserContexts ForkCopies FrameZero

variable {M : Machine} {m m' m₁ : Memory} {pt pt' src : PageTable} {n f : ℕ} {pfns : ℕ → ℕ}
  {page : ℤ} {prot : Prot}

section Forks

variable {s t : Kernel} {env : Env} {u x : UserContext} {caller : PcbPtr}

/-- The control block of a process is as it was. -/
structure SameBlock (q : PcbPtr) (s t : Kernel) : Prop where
  /-- The process keeps its identifier. -/
  pid : t.pid q=s.pid q
  /-- The process keeps its state. -/
  state : t.state q=s.state q
  /-- The process keeps its saved registers. -/
  userContext : t.userContext q=s.userContext q
  /-- The process keeps its saved kernel stack. -/
  kernelContext : t.kernelContext q=s.kernelContext q
  /-- The process keeps its address space. -/
  space : t.space q=s.space q
  /-- The process keeps its deadline. -/
  delayUntil : t.delayUntil q=s.delayUntil q
  /-- The process keeps its exit status. -/
  exitStatus : t.exitStatus q=s.exitStatus q
  /-- The flag of a wait. -/
  waitingForChild : t.waitingForChild q=s.waitingForChild q
  /-- The process keeps its terminal request. -/
  tty : t.tty q=s.tty q
  /-- The process keeps its parent. -/
  parent : t.parent q=s.parent q
  /-- The process keeps its children. -/
  children : t.children q=s.children q
  /-- The queue it is blocked on. -/
  blockQueue : t.blockQueue q=s.blockQueue q

/-- No trace is left in the process and frame state. -/
structure NoTrace (s t : Kernel) : Prop where
  /-- The same frames are in use. -/
  frames : t.memory.frameAllocated=s.memory.frameAllocated
  /-- The process table is the same. -/
  table : t.processTable=s.processTable
  /-- The ready queue is the same. -/
  ready : t.readyQueue=s.readyQueue
  /-- The same processes exist. -/
  live : t.live=s.live
  /-- The current process is the same one. -/
  current : t.currentProcess=s.currentProcess
  /-- The control block of every process is the same. -/
  blocks : ∀ q,s.live q=true → SameBlock q s t

/-- The identifier is not that of a process. -/
def FreshPid (env : Env) (s : Kernel) : Prop := ∀ q,s.live q=true → s.pid q≠env.newPid

/-- A memory with the same frames in use leaves no trace. -/
theorem noTrace_memory (h : m.frameAllocated=s.memory.frameAllocated) :
    NoTrace s {s with memory := m} :=
  ⟨h,rfl,rfl,rfl,rfl,fun _ _ => ⟨rfl,rfl,rfl,rfl,rfl,rfl,rfl,rfl,rfl,rfl,rfl,rfl⟩⟩

/-- The entry of a new identifier in the process table is unused. -/
theorem fresh_entry (hc : Coherent M s) (hf : FreshPid env s) (h0 : 0≤env.newPid) :
    s.processTable env.newPid.toNat=0 := by
  by_contra hn
  obtain ⟨hl,hpid,_⟩ := hc.table _ hn
  refine hf _ hl ?_
  rw [hpid]
  omega

/-- A process that is destroyed leaves the table in which it was registered. -/
theorem released_table {c : PcbPtr} {z : ℤ} {table : ℕ → PcbPtr} (hpid : t.pid c=z)
    (ht : t.processTable=processRegister M c z table) (h0 : 0≤z → table z.toNat=0) :
    (releaseProcess M c t).processTable=table := by
  subst hpid
  dsimp only [releaseProcess]
  rw [ht]
  unfold processRegister
  by_cases hr : 0≤t.pid c ∧ t.pid c<M.maxProcs
  · rw [if_pos hr,if_pos ⟨hr.1,hr.2,Function.update_self ..⟩,Function.update_idem,
      Function.update_eq_self_iff]
    exact (h0 hr.1).symm
  · rw [if_neg hr,if_neg (fun hn => hr ⟨hn.1,hn.2.1⟩)]

/-- A fork whose child was entered and destroyed again. -/
theorem noTrace_undone (hc : Coherent M s) (hm : Sound s.memory) (hf : FreshPid env s)
    {c : PcbPtr} (h0 : c≠0) (hl : s.live c=false)
    (hk : processAllocKernelStack M s.memory=(m₁,some pfns))
    (hp : processCopyRegion1 M m₁ src=(m,some pt)) (y : UserContext) :
    NoTrace s (processDestroy M c
      ((enterChild M s.currentProcess c env.newPid pfns pt m s).setUserContext c y)) := by
  have hidle : c≠s.idleProcess := fresh_ne_idle hc hl
  have hcur := dead_ne_current hc hl
  rw [destroyed_child hc h0 hl]
  refine ⟨?_,?_,rfl,?_,rfl,fun q hq => ?_⟩
  · refine (congrArg Memory.frameAllocated (if_neg hidle)).trans ?_
    dsimp only [Kernel.setUserContext,enterChild]
    rw [Function.update_self]
    exact child_undone hm hk hp
  · refine released_table (z := env.newPid) ?_ rfl (fresh_entry hc hf)
    exact Function.update_self ..
  · dsimp only [releaseProcess,Kernel.setUserContext,enterChild]
    rw [Function.update_idem,Function.update_eq_self_iff]
    exact hl.symm
  · have hqc : q≠c := by
      rintro rfl
      rw [hl] at hq
      cases hq
    have hkept : ∀ {β : Type} (g : PcbPtr → β) (v : β),Function.update g c v q=g q :=
      fun g v => Function.update_of_ne hqc ..
    refine ⟨hkept _ _,hkept _ _,?_,hkept _ _,hkept _ _,hkept _ _,hkept _ _,hkept _ _,hkept _ _,
      hkept _ _,?_,hkept _ _⟩
    · dsimp only [releaseProcess,Kernel.setUserContext,enterChild]
      rw [hkept,hkept]
    · dsimp only [releaseProcess,Kernel.setUserContext,enterChild]
      by_cases hqp : q=s.currentProcess
      · rw [hqp,Function.update_self,Function.update_self,List.erase_append_right,
          List.erase_cons_head,List.append_nil]
        intro hmem
        have hlive := (hc.family.child_parent _ c (hqp ▸ hq) hmem).1
        rw [hl] at hlive
        cases hlive
      · rw [Function.update_of_ne hqp,Function.update_of_ne hqp,hkept]

/-- A child that could not be created has given its identifier back. -/
theorem createChildPids_none {p : PcbPtr} (h : (processCreateChild M env p s).2=none) :
    (createChildPids M env p s).retired=(createChildPids M env p s).obtained := by
  unfold processCreateChild createChildRun at h
  unfold createChildPids createChildRun
  cases hc : callocPcb env s with
  | none => rfl
  | some c =>
    rw [hc] at h
    dsimp only at h ⊢
    cases hk : processAllocKernelStack M s.memory with
    | mk m₁ o =>
      rw [hk] at h
      cases o with
      | none => rfl
      | some pfns =>
        dsimp only at h ⊢
        split
        · rfl
        · rename_i hn
          rw [if_neg hn] at h
          cases hp : processCopyRegion1 M m₁ (s.space p).region1Pt with
          | mk m₂ o₂ =>
            rw [hp] at h
            cases o₂ with
            | none => rfl
            | some pt => cases h

/-- A child that was created keeps its identifier. -/
theorem createChildPids_some {p c : PcbPtr} (hc : callocPcb env s=some c)
    (hk : processAllocKernelStack M s.memory=(m₁,some pfns)) (hn : env.newPid≠ERROR)
    (hp : processCopyRegion1 M m₁ (s.space p).region1Pt=(m,some pt)) :
    createChildPids M env p s=⟨[env.newPid],[]⟩ := by
  unfold createChildPids createChildRun
  rw [hc]
  dsimp only
  rw [hk]
  dsimp only
  rw [if_neg hn,hp]

/-- A fork that fails leaves frames, processes and control blocks as they were. -/
theorem sysFork_fails (hc : Coherent M s) (hm : Sound s.memory) (hf : FreshPid env s)
    (h : sysFork M env caller u s=.returns t x ERROR) :
    NoTrace s t ∧ (forkPids M env s).retired=(forkPids M env s).obtained := by
  have hsame : NoTrace s s := noTrace_memory rfl
  unfold sysFork at h
  unfold forkPids
  split at h
  · rename_i hi
    injection h with h _ _
    rw [←h,if_pos hi]
    exact ⟨hsame,rfl⟩
  · rename_i hi
    rw [if_neg hi]
    split at h
    · cases h
    · rename_i hpt
      rw [if_neg hpt]
      rcases processCreateChild_cases M env s s.currentProcess with
        ⟨m,he⟩|⟨c,pfns,pt,m₁,m,hcp,hk,hn,hp,he⟩
      · rw [he] at h ⊢
        injection h with h _ _
        rw [←h]
        have hacc := hm.accounted.forkFails hm.ownZero he
        exact ⟨noTrace_memory (frames_restored hacc),createChildPids_none (by rw [he])⟩
      · rw [he] at h ⊢
        obtain ⟨h0,hl⟩ := callocPcb_fresh hcp
        dsimp only at h ⊢
        split at h
        · -- the cloned context returns zero or the new identifier
          exfalso
          unfold sysForkReturn at h
          split at h
          · injection h with _ _ h
            exact absurd h (by decide)
          · injection h with _ _ h
            have hpid : (enterChild M s.currentProcess c env.newPid pfns pt m s).pid c=
                env.newPid := Function.update_self ..
            exact hn (hpid.symm.trans h)
        · rename_i hclone
          injection h with h _ _
          rw [←h,if_neg hclone,createChildPids_some hcp hk hn hp]
          refine ⟨noTrace_undone hc hm hf h0 hl hk hp _,?_⟩
          unfold destroyPids
          rw [if_neg h0]
          dsimp only [enterChild]
          rw [Function.update_self]
          rfl

end Forks

section Runs

/-- A fork that fails leaves no trace: the frames in use, the process table, the
ready queue and the control blocks of all processes are as before, and each
identifier that was given out has been taken back, wherever the fork fails. It
relies on frame zero being in use, which holds in every run, and on identifiers
that no process has. -/
theorem fork_leavesNoTrace (hM : KernelLayout M) :
    (∀ s k u,GrowingRun M (fun _ => True) (fun _ env _ => env.switchOk=true) s k →
      Coherent M (saveContext u s) ∧ Sound (saveContext u s).memory) ∧
    ∀ s env caller u t x,Coherent M s → Sound s.memory → FreshPid env s →
      sysFork M env caller u s=.returns t x ERROR →
      NoTrace s t ∧ (forkPids M env s).retired=(forkPids M env s).obtained := by
  refine ⟨fun s k u h => ?_,fun s env caller u t x hc hm hf h => sysFork_fails hc hm hf h⟩
  obtain ⟨hset,_,hz⟩ := run_zeroKept hM (fun _ _ _ => id) h
  rw [saveContext_current u (hset.ready.ne_null hset.ready.current_live)]
  exact ⟨entered_coherent hset.toCoherent u,hz.heap.toSound⟩

/-- Behind a boot there are idle and the initial process. -/
theorem booted_processes {b : Boot M} (hu : (kernelStart M b).cpu=.user) {q : PcbPtr}
    (hl : (kernelStart M b).live q=true) :
    q=(kernelStart M b).initProcess ∨ q=(kernelStart M b).idleProcess := by
  obtain ⟨p,r,pfn,pfns,m₁,m₂,m,v,u,hf,he⟩ := kernelStart_eq hu
  rw [he] at hl ⊢
  exact booted_live.1 hl

/-- The kernel context of a child cannot be cloned. -/
def cloneFails : Env := {sampleEnv 3 2 with cloneOk := false}

/-- The initial process has entered the kernel for its first fork. -/
def forking : Kernel :=
  saveContext (sampleContext .kernel 1 0 0 0) (kernelStart sampleMachine sampleBoot)

/-- No process has identifier two. -/
theorem forking_fresh : FreshPid cloneFails forking := by
  have hvalues : (kernelStart sampleMachine sampleBoot).pid
        (kernelStart sampleMachine sampleBoot).initProcess≠2 ∧
      (kernelStart sampleMachine sampleBoot).pid
        (kernelStart sampleMachine sampleBoot).idleProcess≠2 ∧
      (kernelStart sampleMachine sampleBoot).currentProcess≠0 := by decide +kernel
  obtain ⟨hinit,hidle,h0⟩ := hvalues
  unfold forking
  rw [saveContext_current _ h0]
  intro q hq
  rcases booted_processes sampleBoot_user hq with rfl|rfl
  · exact hinit
  · exact hidle

/-- The first fork fails behind the creation of its child. -/
theorem fork_leavesNoTrace_clone : ∃ t x,
    sysFork sampleMachine cloneFails 2 (sampleContext .kernel 1 0 0 0) forking=
      .returns t x ERROR ∧
    (forkPids sampleMachine cloneFails forking).retired=[2] ∧ NoTrace forking t := by
  have hboot : GrowingRun sampleMachine (fun _ => True) (fun _ env _ => env.switchOk=true)
      (kernelStart sampleMachine sampleBoot) sampleVm.brk :=
    .boot sampleBoot (sampleRequests []) sampleVm (sampleBoot_heap rfl rfl) (fun _ _ => trivial)
      sampleVm_reached sampleBoot_user
  have htrace := fork_leavesNoTrace sampleMachine_layout
  obtain ⟨hc,hm⟩ := htrace.1 _ _ (sampleContext .kernel 1 0 0 0) hboot
  have hresult : flowResult (sysFork sampleMachine cloneFails 2 (sampleContext .kernel 1 0 0 0)
      forking)=some ERROR ∧ (forkPids sampleMachine cloneFails forking).obtained=[2] := by
    decide +kernel
  obtain ⟨hret,hpids⟩ := hresult
  cases hf : sysFork sampleMachine cloneFails 2 (sampleContext .kernel 1 0 0 0) forking with
  | leaves t =>
    rw [hf] at hret
    cases hret
  | returns t x rc =>
    rw [hf] at hret
    injection hret with hrc
    subst hrc
    obtain ⟨hn,hp⟩ := htrace.2 _ _ _ _ _ _ hc hm forking_fresh hf
    exact ⟨t,x,rfl,hp.trans hpids,hn⟩

end Runs

end Yalnix.FailedForks

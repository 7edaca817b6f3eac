import Yalnix.UserBreak
import Yalnix.Continuations
import Yalnix.ForkCopies
import Yalnix.ExecOutcomes

/-!
# How many frames an operation needs

Fork needs frames for a kernel stack and the mapped pages of its caller, Exec
for the new image once the frames of the old one are free, and boot for idle,
init and its program. Each of them succeeds exactly if nothing else fails and
that many frames are free.
-/

namespace Yalnix.FrameDemand

open Framework FrameTable KernelState Scheduling Ipc Terminals ProcessLifetime ProgramLoading
open Syscalls Traps KernelStart Coherence Operations OperationCoherence CallOperations
open RunInvariants Traces AddressSpaces LoadedImages LoaderStages TableLoops FramePartition
open ScratchPage MappedFrames UserBreak Continuations KernelEntries UserBytes ExecArguments

variable {M : Machine} {env : Env} {m m₁ m₂ m' : Memory} {pt pt' src : PageTable} {page : ℤ}
  {n k : ℕ} {pfns : ℕ → ℕ} {l : List ℕ} {prot : Prot} {s t : Kernel} {u : UserContext}

section Counts

/-- A kernel stack gets its frames exactly if there are enough. -/
theorem allocStack_demand : ((allocKernelStackFrom n k pfns m).2.isSome=true ↔
      n≤(freeFrames m).card) ∧
    ((allocKernelStackFrom n k pfns m).2.isSome=true →
      (freeFrames (allocKernelStackFrom n k pfns m).1).card+n=(freeFrames m).card) := by
  induction n generalizing k pfns m with
  | zero =>
    unfold allocKernelStackFrom
    exact ⟨⟨fun _ => Nat.zero_le _,fun _ => rfl⟩,fun _ => rfl⟩
  | succ n ih =>
    unfold allocKernelStackFrom
    by_cases hf : (freeFrames m).card=0
    · rw [frameAlloc_none hf]
      exact ⟨⟨fun hx => (by cases hx),fun hx => (by omega)⟩,fun hx => (by cases hx)⟩
    · obtain ⟨f,m₁,ha,hcount⟩ := frameAlloc_some (Nat.pos_of_ne_zero hf)
      rw [ha]
      dsimp only
      obtain ⟨hiff,hleft⟩ := @ih m₁ (k+1) (Function.update pfns k f)
      refine ⟨hiff.trans (by omega),fun hx => ?_⟩
      have := hleft hx
      omega

/-- Pages are copied exactly if there is a frame for each mapped one. -/
theorem copyPages_demand (hl : ∀ i∈l,i<M.maxPtLen) :
    ((copyRegion1Pages M src l m pt).2.isSome=true ↔ validPages src l≤(freeFrames m).card) ∧
      ((copyRegion1Pages M src l m pt).2.isSome=true →
        (freeFrames (copyRegion1Pages M src l m pt).1).card+validPages src l=
          (freeFrames m).card) := by
  induction l generalizing m pt with
  | nil => exact ⟨⟨fun _ => Nat.zero_le _,fun _ => rfl⟩,fun _ => rfl⟩
  | cons i l ih =>
    have hi := hl i List.mem_cons_self
    have hl' : ∀ j∈l,j<M.maxPtLen := fun j hj => hl j (List.mem_cons_of_mem _ hj)
    unfold validPages
    rw [List.countP_cons]
    unfold copyRegion1Pages
    by_cases hv : (src i).valid=true
    · rw [if_pos hv,if_pos hv]
      by_cases hf : (freeFrames m).card=0
      · rw [frameAlloc_none hf]
        exact ⟨⟨fun hx => (by cases hx),fun hx => (by omega)⟩,fun hx => (by cases hx)⟩
      · obtain ⟨f,m₁,ha,hcount⟩ := frameAlloc_some (Nat.pos_of_ne_zero hf)
        have hmap : memoryMapPage M pt i f (src i).prot=
            some (Function.update pt i ⟨true,(src i).prot,f⟩) := by
          unfold memoryMapPage
          rw [if_neg (by omega)]
          rfl
        have hsame : freeFrames (copyThroughScratch M m₁ f (src i).pfn)=freeFrames m₁ :=
          freeFrames_congr rfl rfl
        rw [ha]
        dsimp only
        rw [hmap]
        dsimp only
        obtain ⟨hiff,hleft⟩ := @ih (copyThroughScratch M m₁ f (src i).pfn)
          (Function.update pt i ⟨true,(src i).prot,f⟩) hl'
        rw [hsame] at hiff hleft
        unfold validPages at hiff hleft
        refine ⟨hiff.trans (by omega),fun hx => ?_⟩
        have := hleft hx
        omega
    · rw [if_neg hv,if_neg hv]
      exact ih hl'

/-- Freeing a table gives back a frame for each mapped page. -/
theorem freeEntries_count (hl : l.Nodup) (hi : ∀ i∈l,i<M.maxPtLen) (h : OwnFrames M m pt) :
    (freeFrames (freePageTableEntries M l m pt).1).card=(freeFrames m).card+validPages pt l := by
  induction l generalizing m pt with
  | nil => rfl
  | cons i l ih =>
    obtain ⟨hnot,hl'⟩ := List.nodup_cons.1 hl
    have hlt := hi i List.mem_cons_self
    have hi' : ∀ j∈l,j<M.maxPtLen := fun j hj => hi j (List.mem_cons_of_mem _ hj)
    unfold validPages
    rw [List.countP_cons]
    unfold freePageTableEntries
    by_cases hv : (pt i).valid=true
    · have hmark := h.marked i hlt hv
      have hback : OwnFrames M (frameFree m (pt i).pfn) (memoryUnmapPage M pt i) :=
        h.unmapPage (Int.natCast_nonneg i) (Int.ofNat_lt.2 hlt) hlt hv
      have hsame : validPages (memoryUnmapPage M pt i) l=validPages pt l := by
        refine List.countP_congr (fun j hj => ?_)
        rw [unmapPage_eq (by omega) (by exact_mod_cast hlt),update_page (by omega),if_neg ?_]
        intro he
        rw [show j=i by omega] at hj
        exact hnot hj
      rw [if_pos hv,if_pos hv,ih hl' hi' hback,hsame,
        frameFree_count hmark (h.bounded _ hmark)]
      unfold validPages
      omega
    · rw [if_neg hv,if_neg hv,ih hl' hi' h]
      rfl

/-- Without a mapped page nothing is freed. -/
theorem freeEntries_none (h : ∀ i∈l,(pt i).valid=false) :
    freePageTableEntries M l m pt=(m,pt) := by
  induction l with
  | nil => rfl
  | cons i l ih =>
    unfold freePageTableEntries
    rw [if_neg (by rw [h i List.mem_cons_self]; decide)]
    exact ih (fun j hj => h j (List.mem_cons_of_mem _ hj))

end Counts

section Forks

/-- What a fork needs beside frames: a block for the child, an identifier, and a
clone of the kernel context. -/
def ForkAnswers (env : Env) (s : Kernel) : Prop :=
  (callocPcb env s).isSome=true ∧ env.newPid≠ERROR ∧ env.cloneOk=true

/-- The frames of a child: its kernel stack and a frame for each mapped page of
its parent. -/
def forkFrames (M : Machine) (s : Kernel) : ℕ :=
  M.kernelStackPages+validPages (s.space s.currentProcess).region1Pt (List.range M.maxPtLen)

/-- The clone of a kernel stack takes no frame. -/
theorem copyStack_frames (l : List ℕ) :
    freeFrames (copyKernelStack M pfns l m)=freeFrames m := by
  induction l generalizing m with
  | nil => exact freeFrames_congr rfl rfl
  | cons i l ih =>
    unfold copyKernelStack
    rw [ih]
    exact freeFrames_congr rfl rfl

/-- A child is created exactly if there are a block, an identifier and frames. -/
theorem createChild_demand : (processCreateChild M env s.currentProcess s).2.isSome=true ↔
    (callocPcb env s).isSome=true ∧ env.newPid≠ERROR ∧
      forkFrames M s≤(freeFrames s.memory).card := by
  obtain ⟨hstack,hleft⟩ := @allocStack_demand s.memory M.kernelStackPages 0 (fun _ => 0)
  unfold forkFrames processCreateChild createChildRun processAllocKernelStack
  cases hp : callocPcb env s with
  | none => simp
  | some c =>
    cases ha : allocKernelStackFrom M.kernelStackPages 0 (fun _ => 0) s.memory with
    | mk m₁ o =>
      rw [ha] at hstack hleft
      dsimp only at hstack hleft
      cases o with
      | none =>
        simp only [Option.isSome_none,Bool.false_eq_true,false_iff] at hstack ⊢
        omega
      | some pfns =>
        have hall := hleft rfl
        obtain ⟨hcopy,_⟩ := @copyPages_demand M m₁ (fun _ => zeroPte)
          (s.space s.currentProcess).region1Pt (List.range M.maxPtLen)
          (fun i hi => List.mem_range.1 hi)
        dsimp only
        split
        · rename_i hn
          simp [hn]
        · rename_i hn
          unfold processCopyRegion1
          cases hc : copyRegion1Pages M (s.space s.currentProcess).region1Pt
            (List.range M.maxPtLen) m₁ (fun _ => zeroPte) with
          | mk m₂ o =>
            rw [hc] at hcopy
            dsimp only at hcopy
            cases o with
            | none =>
              simp only [Option.isSome_none,Bool.false_eq_true,false_iff] at hcopy ⊢
              omega
            | some pt =>
              have hfit := hcopy.1 rfl
              simp only [Option.isSome_some,true_iff]
              exact ⟨trivial,hn,by omega⟩

/-- SysFork returns an identifier exactly if the answers and the frames are there. -/
theorem sysFork_demand (hc : Coherent M s) (h0 : s.currentProcess≠0)
    (hi : s.currentProcess≠s.idleProcess) (hp : pageTableFails env s=false) (caller : PcbPtr)
    (u : UserContext) :
    ∃ t rc,sysFork M env caller u s=.returns t u rc ∧
      ((ForkAnswers env s ∧ forkFrames M s≤(freeFrames s.memory).card) → rc=env.newPid ∧
        rc≠ERROR ∧ (freeFrames t.memory).card+forkFrames M s=(freeFrames s.memory).card) ∧
      (¬(ForkAnswers env s ∧ forkFrames M s≤(freeFrames s.memory).card) → rc=ERROR) := by
  have hdemand := @createChild_demand M env s
  have hflow : ∀ t x rc,sysFork M env caller u s=.returns t x rc → rc≠ERROR → x=u ∧
      rc=env.newPid ∧ (freeFrames t.memory).card+forkFrames M s=(freeFrames s.memory).card := by
    intro t x rc h hrc
    obtain ⟨_,hx,hpid,c,pfns,pt,m₁,m₂,_,hk,hcopy,rfl⟩ := ForkCopies.sysFork_returns hc h hrc
    have hleft := (@allocStack_demand s.memory M.kernelStackPages 0 (fun _ => 0)).2
    have hrest := (@copyPages_demand M m₁ (fun _ => zeroPte) (s.space s.currentProcess).region1Pt
      (List.range M.maxPtLen) (fun i hi => List.mem_range.1 hi)).2
    unfold processAllocKernelStack at hk
    unfold processCopyRegion1 at hcopy
    rw [hk] at hleft
    rw [hcopy] at hrest
    have hsum := hleft rfl
    have hsum' := hrest rfl
    dsimp only at hsum hsum'
    rw [spawn_eq]
    dsimp only [kcCopy]
    rw [copyStack_frames]
    unfold forkFrames
    exact ⟨hx,hpid,by dsimp only [enterChild]; omega⟩
  rcases processCreateChild_cases M env s s.currentProcess with
    ⟨m,he⟩|⟨c,pfns,pt,m₁,m₂,hcp,_,hn,_,he⟩
  · rw [he] at hdemand
    have hfork : sysFork M env caller u s=.returns {s with memory := m} u ERROR := by
      unfold sysFork
      rw [if_neg (not_or.2 ⟨h0,hi⟩),if_neg (by rw [hp]; decide),he]
    refine ⟨_,_,hfork,fun hfit => ?_,fun _ => rfl⟩
    have hsome := hdemand.2 ⟨hfit.1.1,hfit.1.2.1,hfit.2⟩
    cases hsome
  · rw [he] at hdemand
    obtain ⟨_,_,hframes⟩ := hdemand.1 rfl
    have hne := dead_ne_current hc (callocPcb_fresh hcp).2
    have hfork : sysFork M env caller u s=
        if env.cloneOk=true then
          sysForkReturn c u ((kcCopy M c ⟨caller,.fork c⟩
            ((enterChild M s.currentProcess c env.newPid pfns pt m₂ s).setUserContext c
              (((enterChild M s.currentProcess c env.newPid pfns pt m₂ s).userContext c).setResult
                0))).emit (.forked
                  ((enterChild M s.currentProcess c env.newPid pfns pt m₂ s).birth s.currentProcess)
                  ((enterChild M s.currentProcess c env.newPid pfns pt m₂ s).birth c)
                  ((enterChild M s.currentProcess c env.newPid pfns pt m₂ s).pid c)))
        else .returns (processDestroy M c
          ((enterChild M s.currentProcess c env.newPid pfns pt m₂ s).setUserContext c
            (((enterChild M s.currentProcess c env.newPid pfns pt m₂ s).userContext c).setResult
              0))) u ERROR := by
      unfold sysFork
      rw [if_neg (not_or.2 ⟨h0,hi⟩),if_neg (by rw [hp]; decide),he]
      rfl
    by_cases hclone : env.cloneOk=true
    · rw [if_pos hclone] at hfork
      unfold sysForkReturn at hfork
      rw [if_neg (fun hcur => hne hcur.symm)] at hfork
      have hrc : (enterChild M s.currentProcess c env.newPid pfns pt m₂ s).pid c=env.newPid :=
        Function.update_self ..
      refine ⟨_,_,hfork,fun _ => ?_,fun hfit => ?_⟩
      · obtain ⟨_,hpid,hcount⟩ := hflow _ _ _ hfork (hrc.trans_ne hn)
        exact ⟨hpid,hrc.trans_ne hn,hcount⟩
      · exact absurd ⟨⟨by rw [hcp]; rfl,hn,hclone⟩,hframes⟩ hfit
    · rw [if_neg hclone] at hfork
      exact ⟨_,_,hfork,fun hfit => absurd hfit.1.2.2 hclone,fun _ => rfl⟩

/-- The end of a call leaves the memory. -/
theorem finish_memory (caller : PcbPtr) (rc : ℤ) :
    (finish caller (.returns t u rc)).memory=t.memory := by
  dsimp only [finish]
  unfold trapKernelReturn
  split
  · rfl
  · split
    · rfl
    · rfl

/-- In every run a fork of a process other than idle, with a page table for the
child, returns its identifier exactly if there are a block and an identifier for
it, its kernel context can be cloned and there are frames for its kernel stack
and the mapped pages of the caller, and takes that many; otherwise it returns an
error. -/
theorem fork_demand (h : Reachable M s) (hi : s.currentProcess≠s.idleProcess)
    (hv : u.vector=.kernel) (hcall : M.syscallOf u.code=.fork)
    (hp : pageTableFails env s=false) :
    ((ForkAnswers env s ∧ forkFrames M s≤(freeFrames s.memory).card) →
      returnValue M env s (.trap u)=some env.newPid ∧
      (freeFrames (kernelStep M env s (.trap u)).memory).card+forkFrames M s=
        (freeFrames s.memory).card) ∧
    (¬(ForkAnswers env s ∧ forkFrames M s≤(freeFrames s.memory).card) →
      returnValue M env s (.trap u)=some ERROR) := by
  have hset := reachable_settled h
  have h0 := hset.ready.ne_null hset.ready.current_live
  have hc : Coherent M (s.setUserContext s.currentProcess u) := {hset.toCoherent with}
  obtain ⟨t,rc,hfork,hfits,hfails⟩ :=
    @sysFork_demand M env (s.setUserContext s.currentProcess u) hc h0 hi hp s.currentProcess u
  have hflow : stepFlow M env s (.trap u)=.returns t u rc := by
    dsimp only [stepFlow]
    unfold callFlow
    rw [hcall,saveContext_current u h0]
    exact hfork
  have hend := trap_step (s := s) env hv (by rw [hcall]; decide)
  unfold returnValue
  rw [hflow] at hend ⊢
  refine ⟨fun hfit => ?_,fun hfit => ?_⟩
  · obtain ⟨hrc,_,hcount⟩ := hfits hfit
    rw [hend,finish_memory]
    exact ⟨congrArg some hrc,hcount⟩
  · exact congrArg some (hfails hfit)

/-- The child of the initial process takes a kernel stack and its mapped pages. -/
theorem fork_demand_sample : ∃ s,Reachable sampleMachine s ∧
    returnValue sampleMachine (forkInput 3 2).1 s (forkInput 3 2).2=some 2 ∧
    (freeFrames (kernelStep sampleMachine (forkInput 3 2).1 s (forkInput 3 2).2).memory).card+7=
      (freeFrames s.memory).card := by
  have hr : Reachable sampleMachine (kernelStart sampleMachine sampleBoot) :=
    .boot sampleBoot trivial sampleBoot_user
  have hframes : forkFrames sampleMachine (kernelStart sampleMachine sampleBoot)=7 := by
    decide +kernel
  obtain ⟨hfits,_⟩ := @fork_demand sampleMachine (forkInput 3 2).1
    (kernelStart sampleMachine sampleBoot) (sampleContext .kernel 1 0 0 0) hr
    (by decide +kernel) rfl rfl (by decide +kernel)
  obtain ⟨hpid,hcount⟩ := hfits ⟨⟨by decide +kernel,by decide,rfl⟩,by
    rw [hframes]
    decide +kernel⟩
  rw [hframes] at hcount
  exact ⟨_,hr,hpid,hcount⟩

end Forks

section Images

variable {li : LoadInfo} {args : List (List UInt8)} {v : UserSpace} {argbuf : ℕ}

/-- The segments can be read, and behind the tear-down there is a frame for each
page of the image. -/
def ImageLoads (M : Machine) (env : Env) (m : Memory) (v : UserSpace) (li : LoadInfo)
    (args : List (List UInt8)) : Prop :=
  SegmentReadable M env (ImagePage M li args) li.tFaddr li.tVaddr li.tNpg ∧
    SegmentReadable M env (ImagePage M li args) li.idFaddr li.idVaddr li.idNpg ∧
    imageFrames M li args≤(freeFrames m).card+validPages v.region1Pt (List.range M.maxPtLen)

/-- A sane image is in the region. -/
theorem sane_inside (h : SaneLayout M li args) : ImageInside M li args := by
  have hbase : stackBasePg M args=M.maxPtLen-stackNpg M args := rfl
  have hs := stackNpg_nonneg M args
  have hstart := h.textStart
  have htext := h.textCount
  have hdata := h.textData
  have hsum := h.dataNpg
  have hid := h.dataCount
  have hud := h.zeroCount
  have hstack := h.dataStack
  exact ⟨by omega,by omega,by omega⟩

/-- An address below the end of a page is in that page or in an earlier one. -/
theorem page_le {addr i : ℕ} (h : (addr : ℤ)<((M.vmem1Base+(i+1)*M.pageSize : ℕ) : ℤ)) :
    M.region1Page addr≤ i := by
  have hp : (0 : ℤ)<M.pageSize := by exact_mod_cast M.pageSize_pos
  have hmul : (((i+1)*M.pageSize : ℕ) : ℤ)=(i+1 : ℤ)*M.pageSize := by push_cast; rfl
  have hlt : M.region1Page addr< i+1 := by
    unfold Machine.region1Page
    exact Int.ediv_lt_of_lt_mul hp (by omega)
  omega

/-- A page that begins below an address is below the address, rounded up. -/
theorem lt_page {addr i : ℕ} (h : M.vmem1Base+i*M.pageSize<addr) :
    (i : ℤ)<M.region1Page (M.upToPage addr) := by
  have hp : (0 : ℤ)<M.pageSize := by exact_mod_cast M.pageSize_pos
  obtain ⟨⟨c,hc⟩,hup⟩ := upToPage_spec M addr
  obtain ⟨d,hd⟩ := M.pageSize_dvd_base
  have hbelow : d+i<c := by
    refine Nat.lt_of_mul_lt_mul_left (a := M.pageSize) ?_
    rw [Nat.mul_add,←hd,←hc,Nat.mul_comm M.pageSize i]
    omega
  have hpage : M.region1Page (M.upToPage addr)=c-d := by
    unfold Machine.region1Page
    rw [hc,hd]
    push_cast
    rw [←Int.mul_sub,Int.mul_ediv_cancel_left _ hp.ne']
  omega

/-- The zeroed data of a sane image is in its data pages, which hold no text. -/
theorem sane_zeroed (h : SaneLayout M li args) (hlow : li.idVaddr≤li.idEnd)
    (hle : li.idEnd≤li.udEnd) :
    RangeIn M (FillPage M li args) li.idEnd (li.udEnd-li.idEnd) := by
  have hstart := h.textStart
  have htext := h.textCount
  have hdata := h.textData
  have hbrk := h.brk
  have hinside := (sane_inside h).data
  have hfirst : (M.vmem1Base : ℤ)≤li.idVaddr := by
    have hpage : 0≤M.region1Page li.idVaddr := show 0≤dataPg M li by omega
    unfold Machine.region1Page at hpage
    have hp : (0 : ℤ)<M.pageSize := by exact_mod_cast M.pageSize_pos
    have hge := (Int.le_ediv_iff_mul_le hp).1 hpage
    omega
  have hlast : li.udEnd≤M.vmem1Limit := by
    by_contra hn
    have hpage := @lt_page M li.udEnd M.maxPtLen (Nat.not_le.1 hn)
    have hsum := h.dataNpg
    have hid := h.dataCount
    have hud := h.zeroCount
    have hstack := h.dataStack
    have hbase : stackBasePg M args=M.maxPtLen-stackNpg M args := rfl
    have hs := stackNpg_nonneg M args
    omega
  by_cases hempty : li.udEnd-li.idEnd=0
  · exact .inl hempty
  · refine .inr ⟨by omega,by omega,fun i hi h₁ h₂ => ?_⟩
    have hge : dataPg M li≤ i := (region1Page_mono hlow).trans (page_le h₁)
    have hlt : (i : ℤ)<dataPg M li+dataNpg li := by
      rw [←hbrk]
      exact lt_page (by omega)
    refine ⟨fun ht => ?_,.inl ⟨hge,by omega⟩⟩
    have hend : (i : ℤ)<textPg M li+li.tNpg.toNat := ht.2
    omega

/-- Its argument block is in its stack pages, which hold no text either. -/
theorem sane_block (h : SaneLayout M li args) :
    RangeIn M (FillPage M li args) (argBlock M args)
      ((M.vmem1Limit : ℤ)-argBlock M args).toNat := by
  have hstart := h.textStart
  have htext := h.textCount
  have hdata := h.textData
  have hsum := h.dataNpg
  have hid := h.dataCount
  have hud := h.zeroCount
  have hstack := h.dataStack
  obtain ⟨_,hgap,hend,hptr⟩ := block_layout M args
  have hin : Within M (StackPage M args) (argBlock M args) :=
    stack_within (by omega) (by omega) (by omega)
  have hbase := hin.base
  refine .inr ⟨hbase,by omega,fun i hi h₁ _ => ?_⟩
  have hge : stackBasePg M args≤ i := by
    obtain ⟨b,hb,hcast,_⟩ := region_pages M
    have hp : (0 : ℤ)<M.pageSize := by exact_mod_cast M.pageSize_pos
    have hmul : ((M.vmem1Base+(i+1)*M.pageSize : ℕ) : ℤ)=(b+(i+1) : ℤ)*M.pageSize := by
      push_cast
      rw [hcast,←Int.add_mul]
    have hlt : stackPtr M args/M.pageSize<b+(i+1) :=
      Int.ediv_lt_of_lt_mul hp (by omega)
    rw [stackBasePg_eq,hb]
    omega
  have hlt : (i : ℤ)<stackBasePg M args+stackNpg M args := by
    unfold stackBasePg
    omega
  refine ⟨fun ht => ?_,.inr ⟨hge,by omega⟩⟩
  have hlast : (i : ℤ)<textPg M li+li.tNpg.toNat := ht.2
  omega

/-- Filling a sane image does not stop the kernel. -/
theorem sane_fills (hl : LoadInfoOk M env) (ha : Accepted M env args argbuf li) :
    FillFits M li args := by
  have hlayout := hl.layout ha.info ha.layout
  obtain ⟨_,_,_,_,_,hlow,hle⟩ := hl li ha.info
  exact ⟨hle,sane_zeroed hlayout hlow hle,sane_block hlayout⟩

/-- An accepted sane image is loaded exactly if it can be read and its frames
are there. -/
theorem loadProgram_demand (hl : LoadInfoOk M env) (ha : Accepted M env args argbuf li)
    (hfreed : (freeFrames (memoryFreePageTableFrames M m v.region1Pt).1).card=
      (freeFrames m).card+validPages v.region1Pt (List.range M.maxPtLen)) :
    (ImageLoads M env m v li args → ∃ m' v' pc sp,loadProgram M env args argbuf m v=
      .success m' v' pc sp ∧ (freeFrames m').card+imageFrames M li args=
        (freeFrames m).card+validPages v.region1Pt (List.range M.maxPtLen)) ∧
    (¬ImageLoads M env m v li args → ∃ m' v',loadProgram M env args argbuf m v=.kill m' v') := by
  have hinside := sane_inside (hl.layout ha.info ha.layout)
  rw [freed_spare] at hfreed
  refine ⟨fun hx => ?_,fun hn => loadProgram_killed ha (fun hf => hn ?_)⟩
  · obtain ⟨htext,hdata,hframes⟩ := hx
    have hfill : Fillable M env args argbuf m v li :=
      ⟨ha,hinside,by rw [hfreed]; exact hframes,htext,hdata⟩
    obtain ⟨m',v',pc,sp,hload,hcount⟩ := (loadProgram_filled hfill).1 (sane_fills hl ha)
    rw [hfreed] at hcount
    exact ⟨m',v',pc,sp,hload,hcount⟩
  · have hframes := hf.frames
    rw [hfreed] at hframes
    exact ⟨hf.text,hf.data,hframes⟩

/-- In every run with sane images the pages of a process have frames of their own. -/
theorem run_ownFrames (h : Run M (fun b => LoadInfoOk M b.initEnv)
      (fun _ env _ => env.switchOk=true ∧ LoadInfoOk M env) s) :
    Settled M s ∧ OwnFrames M s.memory (s.space s.currentProcess).region1Pt := by
  obtain ⟨hset,⟨R,_,hown⟩,_⟩ := run_invariant (layout_allowed M)
    (P := fun s => (∃ R : ℕ → Bool,R 0=true ∧ Owned M R s) ∧
      ((s.cpu=.user ∨ s.cpu=.kernel) → Spaces M s))
    (fun b p q pfn pfns m₁ m₂ m v u hb hf => ⟨⟨_,reserved_zero hf.stack,booted_owned hb hf⟩,
      fun _ => booted_spaces hb hf⟩)
    (fun c s t hc hp hop => by
      obtain ⟨⟨R,hR,ho⟩,hsp⟩ := hp
      exact ⟨⟨R,hR,op_owned (fun env he => he env rfl) hR hc hsp ho hop⟩,
        op_spaces (fun env he => he env rfl) hc hsp hop⟩) h
  exact ⟨hset,owned_frames hown hset.ready.current_live⟩

/-- The arguments of an Exec are copied and its image is accepted. -/
def Asked (M : Machine) (env : Env) (u : UserContext) (args : List (List UInt8))
    (li : LoadInfo) : Prop :=
  (∃ blocks,copyExecArgs env (u.ptr 0) (u.ptr 1)=.copied args blocks) ∧
    Accepted M env args (2+args.length) li

/-- SysExec by its answers and the free frames. -/
theorem sysExec_demand (hl : LoadInfoOk M env) (h0 : s.currentProcess≠0)
    (hi : s.currentProcess≠s.idleProcess)
    (hown : OwnFrames M s.memory (s.space s.currentProcess).region1Pt) :
    (∀ args li,Asked M env u args li →
      (ImageLoads M env s.memory (s.space s.currentProcess) li args →
        ∃ t,sysExec M env (u.ptr 0) (u.ptr 1) u s=.returns t u SUCCESS ∧
          (freeFrames t.memory).card+imageFrames M li args=(freeFrames s.memory).card+
            validPages (s.space s.currentProcess).region1Pt (List.range M.maxPtLen)) ∧
      (¬ImageLoads M env s.memory (s.space s.currentProcess) li args →
        ExecKills M env (u.ptr 0) (u.ptr 1) s ∧
          ∃ t,sysExec M env (u.ptr 0) (u.ptr 1) u s=.leaves t)) ∧
    ((∀ args li,¬Asked M env u args li) →
      ∃ t,sysExec M env (u.ptr 0) (u.ptr 1) u s=.returns t u ERROR ∧ t.memory=s.memory) := by
  unfold sysExec
  rw [if_neg (not_or.2 ⟨h0,hi⟩)]
  refine ⟨fun args li hasked => ?_,fun hnone => ?_⟩
  · obtain ⟨⟨blocks,hcopy⟩,hacc⟩ := hasked
    obtain ⟨hfits,hkills⟩ := loadProgram_demand hl hacc
      (freeEntries_count List.nodup_range (fun i hi => List.mem_range.1 hi) hown)
    unfold execImage
    rw [hcopy]
    dsimp only [noteLoads]
    refine ⟨fun hx => ?_,fun hx => ?_⟩
    · obtain ⟨m',v',pc,sp,hload,hcount⟩ := hfits hx
      rw [hload]
      exact ⟨_,rfl,hcount⟩
    · obtain ⟨m',v',hload⟩ := hkills hx
      rw [hload]
      exact ⟨⟨args,blocks,m',v',hcopy,hload⟩,_,rfl⟩
  · unfold execImage
    cases hcopy : copyExecArgs env (u.ptr 0) (u.ptr 1) with
    | failed allocated freed => exact ⟨_,rfl,rfl⟩
    | copied args blocks =>
      dsimp only [noteLoads]
      rw [loadProgram_refused (fun li hacc => hnone args li ⟨⟨blocks,hcopy⟩,hacc⟩)]
      exact ⟨_,rfl,rfl⟩

/-- The end of an Exec leaves the memory. -/
theorem finishExec_memory (caller : PcbPtr) (rc : ℤ) :
    (finishExec caller (.returns t u rc)).memory=t.memory := by
  have hmem : ∀ w : UserContext,(trapKernelReturn caller w t).memory=t.memory := by
    intro w
    unfold trapKernelReturn
    split
    · rfl
    · split
      · rfl
      · rfl
  dsimp only [finishExec]
  split
  · exact hmem _
  · exact hmem _

/-- In every run with sane images an Exec of a process other than idle whose
arguments are copied and whose image is accepted succeeds exactly if the segments
can be read and the free frames and those of the old image are enough for the new
one, and leaves what is left of them free; otherwise the caller has to end. In
any other case it returns an error and no frame has changed. -/
theorem exec_demand (h : Run M (fun b => LoadInfoOk M b.initEnv)
      (fun _ env _ => env.switchOk=true ∧ LoadInfoOk M env) s)
    (hi : s.currentProcess≠s.idleProcess) (hv : u.vector=.kernel)
    (hcall : M.syscallOf u.code=.exec) (hl : LoadInfoOk M env) :
    (∀ args li,Asked M env u args li →
      (ImageLoads M env s.memory (s.space s.currentProcess) li args →
        returnValue M env s (.trap u)=some SUCCESS ∧
        (freeFrames (kernelStep M env s (.trap u)).memory).card+imageFrames M li args=
          (freeFrames s.memory).card+
            validPages (s.space s.currentProcess).region1Pt (List.range M.maxPtLen)) ∧
      (¬ImageLoads M env s.memory (s.space s.currentProcess) li args →
        returnValue M env s (.trap u)=none ∧ ExecKills M env (u.ptr 0) (u.ptr 1) s)) ∧
    ((∀ args li,¬Asked M env u args li) → returnValue M env s (.trap u)=some ERROR ∧
      (kernelStep M env s (.trap u)).memory=s.memory) := by
  obtain ⟨hset,hown⟩ := run_ownFrames h
  have h0 := hset.ready.ne_null hset.ready.current_live
  obtain ⟨hasked,hnone⟩ := @sysExec_demand M env
    (s.setUserContext s.currentProcess u) u hl h0 hi hown
  have hflow : stepFlow M env s (.trap u)=
      sysExec M env (u.ptr 0) (u.ptr 1) u (s.setUserContext s.currentProcess u) := by
    dsimp only [stepFlow]
    unfold callFlow
    rw [hcall,saveContext_current u h0]
  have hend : kernelStep M env s (.trap u)=finishExec s.currentProcess
      (sysExec M env (u.ptr 0) (u.ptr 1) u (s.setUserContext s.currentProcess u)) := by
    dsimp only [kernelStep,trap]
    rw [hv]
    dsimp only [trapKernel]
    unfold syscallDispatch
    rw [hcall,saveContext_current u h0]
  unfold returnValue
  rw [hflow,hend]
  refine ⟨fun args li ha => ⟨fun hx => ?_,fun hx => ?_⟩,fun hn => ?_⟩
  · obtain ⟨t,hexec,hcount⟩ := (hasked args li ha).1 hx
    rw [hexec,finishExec_memory]
    exact ⟨rfl,hcount⟩
  · obtain ⟨hkill,t,hexec⟩ := (hasked args li ha).2 hx
    rw [hexec]
    exact ⟨rfl,hkill⟩
  · obtain ⟨t,hexec,hmem⟩ := hnone hn
    rw [hexec,finishExec_memory]
    exact ⟨rfl,hmem⟩

/-- The initial process loads its own image again, and as many frames are free. -/
theorem exec_demand_sample : ∃ s,s=kernelStart sampleMachine sampleBoot ∧
    returnValue sampleMachine (sampleEnv 0 0) s (callInput 2 0x105000 0 0).2=some SUCCESS ∧
    (freeFrames (kernelStep sampleMachine (sampleEnv 0 0) s
      (callInput 2 0x105000 0 0).2).memory).card=(freeFrames s.memory).card := by
  have hb : LoadInfoOk sampleMachine sampleBoot.initEnv ∧
      LoadInfoOk sampleMachine (sampleEnv 0 0) :=
    ⟨(imageTest_sound (kernelStart sampleMachine sampleBoot) _ .resume (by decide)).2,
      (imageTest_sound (kernelStart sampleMachine sampleBoot) _ .resume (by decide)).2⟩
  have hpages : imageFrames sampleMachine sampleImage [[]]=5 ∧
      validPages ((kernelStart sampleMachine sampleBoot).space
        (kernelStart sampleMachine sampleBoot).currentProcess).region1Pt
          (List.range sampleMachine.maxPtLen)=5 := by decide +kernel
  obtain ⟨hasked,_⟩ := @exec_demand sampleMachine (sampleEnv 0 0)
    (kernelStart sampleMachine sampleBoot) (sampleContext .kernel 2 0x105000 0 0)
    (.boot sampleBoot hb.1 sampleBoot_user) (by decide +kernel) rfl rfl hb.2
  obtain ⟨hrc,hcount⟩ := (hasked [[]] sampleImage ⟨⟨[0,1,2],rfl⟩,rfl,rfl,by decide,by decide,
    rfl⟩).1 ⟨by decide +kernel,by decide +kernel,by
    rw [hpages.1,hpages.2]
    omega⟩
  rw [hpages.1,hpages.2] at hcount
  exact ⟨_,rfl,hrc,Nat.add_right_cancel hcount⟩

end Images

section Boots

variable {b : Boot M} {p q : PcbPtr} {pfn : ℕ} {li : LoadInfo}

/-- What the creation of idle needs beside a frame. -/
structure IdleAnswers (b : Boot M) : Prop where
  /-- There is a control block for the idle process. -/
  block : b.idleEnv.malloc 0=true ∧ b.idleEnv.pcbAddr≠0
  /-- There is a page table for the idle process. -/
  table : b.idleEnv.malloc 1=true
  /-- There is an identifier for the idle process. -/
  pid : b.idleEnv.newPid≠ERROR

/-- What the creation of the initial process needs beside frames. -/
structure InitAnswers (b : Boot M) : Prop where
  /-- A block of its own. -/
  block : b.initEnv.malloc 0=true ∧ b.initEnv.pcbAddr≠0 ∧ b.initEnv.pcbAddr≠b.idleEnv.pcbAddr
  /-- There is a page table for the initial process. -/
  table : b.initEnv.malloc 1=true
  /-- There is an identifier for the initial process. -/
  pid : b.initEnv.newPid≠ERROR
  /-- A clone of the kernel context. -/
  clone : b.initEnv.cloneOk=true
  /-- A switch to it. -/
  switch : b.initEnv.switchOk=true

/-- Idle is created with the first free frame, or boot stops. -/
theorem createIdle_demand (M : Machine) (b : Boot M) :
    (∃ pfn m₁,IdleAnswers b ∧ frameAlloc (emptyKernel M b).memory=some (pfn,m₁) ∧
      createIdle M b (emptyKernel M b)=idleKernel M b b.idleEnv.pcbAddr pfn m₁) ∨
    (¬(IdleAnswers b ∧ (freeFrames (emptyKernel M b).memory).card≠0) ∧
      ∃ msg,(createIdle M b (emptyKernel M b)).cpu=.aborted msg) := by
  unfold createIdle callocPcb
  split
  · rename_i hp
    refine .inr ⟨fun hx => ?_,_,rfl⟩
    rw [if_pos ⟨hx.1.block.1,hx.1.block.2,rfl⟩] at hp
    cases hp
  · rename_i p hp
    split at hp
    · rename_i hblock
      injection hp with hp
      subst hp
      split
      · rename_i hm
        refine .inr ⟨fun hx => ?_,_,rfl⟩
        rw [hx.1.table] at hm
        cases hm
      · rename_i hm
        split
        · rename_i hf
          refine .inr ⟨fun hx => ?_,_,rfl⟩
          obtain ⟨f,m₁,ha,_⟩ := frameAlloc_some (Nat.pos_of_ne_zero hx.2)
          rw [ha] at hf
          cases hf
        · rename_i pfn m₁ hf
          split
          · rename_i hn
            exact .inr ⟨fun hx => hx.1.pid hn,_,rfl⟩
          · rename_i hn
            exact .inl ⟨pfn,m₁,⟨⟨hblock.1,hblock.2.1⟩,by simpa using hm,hn⟩,hf,rfl⟩
    · cases hp

/-- The initial process is created with frames for its kernel stack, or boot stops. -/
theorem createInit_demand (hp : p=b.idleEnv.pcbAddr) :
    (∃ pfns m₂,(b.initEnv.switchOk=true → InitAnswers b) ∧
      processAllocKernelStack M m₁=(m₂,some pfns) ∧
      createInit M b (idleKernel M b p pfn m₁)=initKernel M b p b.initEnv.pcbAddr pfn pfns m₁ m₂ ∧
      b.initEnv.pcbAddr≠0 ∧ b.initEnv.pcbAddr≠p) ∨
    (¬(InitAnswers b ∧ M.kernelStackPages≤(freeFrames m₁).card) ∧
      ∃ msg,(createInit M b (idleKernel M b p pfn m₁)).cpu=.aborted msg) := by
  have hlive : ∀ x,(idleKernel M b p pfn m₁).live x=false ↔ x≠p := by
    intro x
    dsimp only [idleKernel,enterIdle,emptyKernel]
    by_cases hx : x=p
    · rw [hx,Function.update_self]
      exact ⟨fun h => (by cases h),fun h => absurd rfl h⟩
    · rw [Function.update_of_ne hx]
      exact ⟨fun _ => hx,fun _ => rfl⟩
  have hstack := (@allocStack_demand m₁ M.kernelStackPages 0 (fun _ => 0)).1
  unfold createInit callocPcb
  split
  · rename_i hq
    refine .inr ⟨fun hx => ?_,_,rfl⟩
    rw [if_pos ⟨hx.1.block.1,hx.1.block.2.1,(hlive _).2 (by rw [hp]; exact hx.1.block.2.2)⟩] at hq
    cases hq
  · rename_i q hq
    split at hq
    · rename_i hblock
      injection hq with hq
      subst hq
      have hne := (hlive _).1 hblock.2.2
      split
      · rename_i hm
        refine .inr ⟨fun hx => ?_,_,rfl⟩
        rw [hx.1.table] at hm
        cases hm
      · rename_i hm
        split
        · rename_i m₂ hk
          refine .inr ⟨fun hx => ?_,_,rfl⟩
          have hk' : allocKernelStackFrom M.kernelStackPages 0 (fun _ => 0) m₁=(m₂,none) := hk
          rw [hk'] at hstack
          have hsome := hstack.2 hx.2
          cases hsome
        · rename_i m₂ pfns hk
          split
          · rename_i hn
            exact .inr ⟨fun hx => hx.1.pid hn,_,rfl⟩
          · rename_i hn
            split
            · rename_i hc
              refine .inr ⟨fun hx => ?_,_,rfl⟩
              rw [hx.1.clone] at hc
              cases hc
            · rename_i hc
              refine .inl ⟨pfns,m₂,fun hs => ⟨⟨hblock.1,hblock.2.1,?_⟩,by simpa using hm,hn,
                by simpa using hc,hs⟩,hk,rfl,hblock.2.1,hne⟩
              rw [←hp]
              exact hne
    · cases hq

/-- The initial process loads its program, or boot stops. -/
theorem switchToInit_demand (h0 : q≠0) (hne : q≠p) {pfns : ℕ → ℕ} (hl : LoadInfoOk M b.initEnv) :
    ((switchToInit M b (initKernel M b p q pfn pfns m₁ m₂)).cpu=.user ↔
      b.initEnv.switchOk=true ∧ ∃ li,Accepted M b.initEnv b.args 2 li ∧
        ImageLoads M b.initEnv m₂ zeroSpace li b.args) ∧
    ∀ li,b.initEnv.switchOk=true → Accepted M b.initEnv b.args 2 li →
      ImageLoads M b.initEnv m₂ zeroSpace li b.args →
      (freeFrames (switchToInit M b (initKernel M b p q pfn pfns m₁ m₂)).memory).card+
        imageFrames M li b.args=(freeFrames m₂).card := by
  unfold switchToInit
  by_cases hs : b.initEnv.switchOk=true
  · have hswitch : processSwitch M b.initEnv (initKernel M b p q pfn pfns m₁ m₂).initProcess
        ((initKernel M b p q pfn pfns m₁ m₂).setKernelContext
          (initKernel M b p q pfn pfns m₁ m₂).idleProcess
          ⟨(initKernel M b p q pfn pfns m₁ m₂).idleProcess,.boot⟩)=
        switchedKernel M b p q pfn pfns m₁ m₂ := by
      unfold processSwitch
      exact (if_neg (not_or.2 ⟨h0,hne⟩)).trans (if_pos hs)
    have hspace : (switchedKernel M b p q pfn pfns m₁ m₂).space q={zeroSpace with
        kernelStackPfns := pfns, userStackLowPage := M.maxPtLen} := Function.update_self ..
    have hinit : (switchedKernel M b p q pfn pfns m₁ m₂).initProcess=q := rfl
    have hframes : freeFrames (switchedKernel M b p q pfn pfns m₁ m₂).memory=freeFrames m₂ := by
      exact (freeFrames_congr rfl rfl).trans (@copyStack_frames M _
        ((initKernel M b p q pfn pfns m₁ m₂).space q).kernelStackPfns
        (List.range M.kernelStackPages))
    have hzero : validPages (zeroSpace.region1Pt) (List.range M.maxPtLen)=0 :=
      List.countP_eq_zero.2 (fun _ _ => Bool.false_ne_true)
    have hloads : ∀ li,ImageLoads M b.initEnv (switchedKernel M b p q pfn pfns m₁ m₂).memory
        ((switchedKernel M b p q pfn pfns m₁ m₂).space q) li b.args ↔
          ImageLoads M b.initEnv m₂ zeroSpace li b.args := by
      intro li
      unfold ImageLoads
      rw [hframes,hspace]
    rw [if_neg (by rw [hs]; decide),hswitch]
    unfold loadInit
    rw [hinit]
    by_cases ha : ∃ li,Accepted M b.initEnv b.args 2 li
    · obtain ⟨li,hacc⟩ := ha
      have hfreed : (freeFrames (memoryFreePageTableFrames M
          (switchedKernel M b p q pfn pfns m₁ m₂).memory
          ((switchedKernel M b p q pfn pfns m₁ m₂).space q).region1Pt).1).card=
            (freeFrames (switchedKernel M b p q pfn pfns m₁ m₂).memory).card+
              validPages ((switchedKernel M b p q pfn pfns m₁ m₂).space q).region1Pt
                (List.range M.maxPtLen) := by
        rw [hspace,hzero]
        exact congrArg (fun x : Memory × PageTable => (freeFrames x.1).card)
          (freeEntries_none (fun _ _ => rfl))
      have hunique : ∀ li',Accepted M b.initEnv b.args 2 li' → li'=li := by
        intro li' h'
        have he := h'.info.symm.trans hacc.info
        injection he
      obtain ⟨hfits,hkills⟩ := loadProgram_demand hl hacc hfreed
      by_cases hx : ImageLoads M b.initEnv m₂ zeroSpace li b.args
      · obtain ⟨m',v',pc,sp,hload,hcount⟩ := hfits ((hloads li).2 hx)
        rw [hload]
        refine ⟨⟨fun _ => ⟨hs,li,hacc,hx⟩,fun _ => rfl⟩,fun li' _ h' _ => ?_⟩
        rw [hunique li' h']
        rw [hframes,hspace,hzero] at hcount
        exact hcount
      · obtain ⟨m',v',hload⟩ := hkills (fun hy => hx ((hloads li).1 hy))
        rw [hload]
        refine ⟨⟨fun hy => (by cases hy),fun ⟨_,li',h',hy⟩ => ?_⟩,fun li' _ h' hy => ?_⟩
        · rw [hunique li' h'] at hy
          exact absurd hy hx
        · rw [hunique li' h'] at hy
          exact absurd hy hx
    · rw [loadProgram_refused (fun li hacc => ha ⟨li,hacc⟩)]
      exact ⟨⟨fun hy => (by cases hy),fun ⟨_,li,hacc,_⟩ => absurd ⟨li,hacc⟩ ha⟩,
        fun li _ hacc => absurd ⟨li,hacc⟩ ha⟩
  · rw [if_pos (by simpa using hs)]
    exact ⟨⟨fun hx => (by cases hx),fun hx => absurd hx.1 hs⟩,fun _ hx => absurd hx hs⟩

/-- The answers and the frames with which boot reaches the initial program: a
stack page for idle, a kernel stack for init and the pages of its image. -/
structure BootFits (M : Machine) (b : Boot M) (li : LoadInfo) : Prop where
  /-- The frame table is large enough. -/
  table : b.frames≤M.maxFrames
  /-- The page table of Region 0 can be allocated. -/
  region0 : b.tableAllocated=true
  /-- Idle can be created. -/
  idle : IdleAnswers b
  /-- So can the initial process. -/
  init : InitAnswers b
  /-- Its program is accepted. -/
  program : Accepted M b.initEnv b.args 2 li
  /-- The text can be read into its pages. -/
  text : SegmentReadable M b.initEnv (ImagePage M li b.args) li.tFaddr li.tVaddr li.tNpg
  /-- So can the initialised data. -/
  data : SegmentReadable M b.initEnv (ImagePage M li b.args) li.idFaddr li.idVaddr li.idNpg
  /-- There are frames that are not reserved. -/
  frames : 1+M.kernelStackPages+imageFrames M li b.args≤
    (freeFrames (emptyKernel M b).memory).card

/-- Boot behind the creation of both processes. -/
theorem kernelStart_switch {pfns : ℕ → ℕ} (hfr : b.frames≤M.maxFrames)
    (ht : b.tableAllocated=true)
    (hidle : createIdle M b (emptyKernel M b)=idleKernel M b p pfn m₁)
    (hinit : createInit M b (idleKernel M b p pfn m₁)=initKernel M b p q pfn pfns m₁ m₂) :
    kernelStart M b=switchToInit M b (initKernel M b p q pfn pfns m₁ m₂) := by
  unfold kernelStart
  rw [if_neg (Nat.not_lt.2 hfr),if_neg (by rw [ht]; decide),hidle,hinit]
  rfl

/-- A boot that cannot create idle stops with the message. -/
theorem kernelStart_idle {msg : String} (h : (createIdle M b (emptyKernel M b)).cpu=.aborted msg) :
    (kernelStart M b).cpu≠.user := by
  have hfail : bootFailed (createIdle M b (emptyKernel M b))=true := by
    unfold bootFailed
    rw [h]
    exact decide_eq_true Cpu.noConfusion
  unfold kernelStart
  by_cases hfr : M.maxFrames<b.frames
  · rw [if_pos hfr]
    exact Cpu.noConfusion
  · rw [if_neg hfr]
    by_cases ht : b.tableAllocated=false
    · rw [if_pos ht]
      exact Cpu.noConfusion
    · rw [if_neg ht,if_pos hfail,h]
      exact Cpu.noConfusion

/-- Boot stops without the initial process. -/
theorem kernelStart_init {msg : String}
    (hidle : createIdle M b (emptyKernel M b)=idleKernel M b p pfn m₁)
    (h : (createInit M b (idleKernel M b p pfn m₁)).cpu=.aborted msg) :
    (kernelStart M b).cpu≠.user := by
  have hok : bootFailed (idleKernel M b p pfn m₁)=false := rfl
  have hfail : bootFailed (createInit M b (idleKernel M b p pfn m₁))=true := by
    unfold bootFailed
    rw [h]
    exact decide_eq_true Cpu.noConfusion
  unfold kernelStart
  rw [hidle]
  by_cases hfr : M.maxFrames<b.frames
  · rw [if_pos hfr]
    exact Cpu.noConfusion
  · rw [if_neg hfr]
    by_cases ht : b.tableAllocated=false
    · rw [if_pos ht]
      exact Cpu.noConfusion
    · rw [if_neg ht,if_neg (by rw [hok]; decide),if_pos hfail,h]
      exact Cpu.noConfusion

/-- Boot reaches the initial program exactly if the answers and the frames are
there, and takes that many. -/
theorem boot_demand (hl : LoadInfoOk M b.initEnv) :
    ((kernelStart M b).cpu=.user ↔ ∃ li,BootFits M b li) ∧
      ∀ li,BootFits M b li → (freeFrames (kernelStart M b).memory).card+
        (1+M.kernelStackPages+imageFrames M li b.args)=
          (freeFrames (emptyKernel M b).memory).card := by
  have hzero : validPages zeroSpace.region1Pt (List.range M.maxPtLen)=0 :=
    List.countP_eq_zero.2 (fun _ _ => Bool.false_ne_true)
  have hnever : (∀ li,¬BootFits M b li) → (kernelStart M b).cpu≠.user →
      ((kernelStart M b).cpu=.user ↔ ∃ li,BootFits M b li) ∧
      ∀ li,BootFits M b li → (freeFrames (kernelStart M b).memory).card+
        (1+M.kernelStackPages+imageFrames M li b.args)=
          (freeFrames (emptyKernel M b).memory).card := fun hno hcpu =>
    ⟨⟨fun hu => absurd hu hcpu,fun ⟨li,hx⟩ => absurd hx (hno li)⟩,fun li hx => absurd hx (hno li)⟩
  by_cases hfr : M.maxFrames<b.frames
  · refine hnever (fun li hx => absurd hx.table (Nat.not_le.2 hfr)) ?_
    unfold kernelStart
    rw [if_pos hfr]
    exact Cpu.noConfusion
  · by_cases ht : b.tableAllocated=false
    · refine hnever (fun li hx => ?_) ?_
      · rw [hx.region0] at ht
        cases ht
      · unfold kernelStart
        rw [if_neg hfr,if_pos ht]
        exact Cpu.noConfusion
    have ht : b.tableAllocated=true := by simpa using ht
    rcases createIdle_demand M b with ⟨pfn,m₁,hia,hst,hidle⟩|⟨hno,msg,hcpu⟩
    · obtain ⟨f,m,ha,hcount⟩ := frameAlloc_some (m := (emptyKernel M b).memory)
        (Nat.pos_of_ne_zero (fun h0 => by rw [frameAlloc_none h0] at hst; cases hst))
      rw [ha] at hst
      injection hst with hst
      injection hst with hf hm
      subst hf hm
      rcases @createInit_demand M m b _ f rfl with
        ⟨pfns,m₂,hna,hk,hinit,h0,hne⟩|⟨hno,msg,hcpu⟩
      · have hleft := (@allocStack_demand m M.kernelStackPages 0 (fun _ => 0))
        have hk' : allocKernelStackFrom M.kernelStackPages 0 (fun _ => 0) m=(m₂,some pfns) := hk
        rw [hk'] at hleft
        have hstack := hleft.1.1 rfl
        have hrest := hleft.2 rfl
        obtain ⟨hiff,hsum⟩ := @switchToInit_demand M m m₂ b b.idleEnv.pcbAddr b.initEnv.pcbAddr f
          h0 hne pfns hl
        rw [kernelStart_switch (Nat.not_lt.1 hfr) ht hidle hinit]
        dsimp only at hrest
        have hfits : ∀ li,BootFits M b li ↔ b.initEnv.switchOk=true ∧
            Accepted M b.initEnv b.args 2 li ∧
              ImageLoads M b.initEnv m₂ zeroSpace li b.args := by
          intro li
          unfold ImageLoads
          rw [hzero]
          refine ⟨fun hx => ⟨hx.init.switch,hx.program,hx.text,hx.data,?_⟩,fun hx =>
            ⟨Nat.not_lt.1 hfr,ht,hia,hna hx.1,hx.2.1,hx.2.2.1,hx.2.2.2.1,?_⟩⟩
          · have := hx.frames
            omega
          · have := hx.2.2.2.2
            omega
        refine ⟨hiff.trans ⟨fun ⟨hs,li,hx⟩ => ⟨li,(hfits li).2 ⟨hs,hx⟩⟩,fun ⟨li,hx⟩ =>
          ⟨((hfits li).1 hx).1,li,((hfits li).1 hx).2⟩⟩,fun li hx => ?_⟩
        obtain ⟨hs,hacc,hload⟩ := (hfits li).1 hx
        have := hsum li hs hacc hload
        omega
      · refine hnever (fun li hx => hno ⟨hx.init,?_⟩) (kernelStart_init hidle hcpu)
        have := hx.frames
        omega
    · refine hnever (fun li hx => hno ⟨hx.idle,?_⟩) (kernelStart_idle hcpu)
      have := hx.frames
      omega

/-- A boot that reaches user mode had all answers. -/
theorem booted_answers (hu : (kernelStart M b).cpu=.user) : IdleAnswers b ∧ InitAnswers b := by
  rcases createIdle_demand M b with ⟨pfn,m₁,hia,_,hidle⟩|⟨_,msg,hcpu⟩
  · rcases @createInit_demand M m₁ b _ pfn rfl with ⟨pfns,m₂,hna,_,hinit,_⟩|⟨_,msg,hcpu⟩
    · have hfr : b.frames≤M.maxFrames := by
        by_contra hfr
        unfold kernelStart at hu
        rw [if_pos (Nat.not_le.1 hfr)] at hu
        cases hu
      have ht : b.tableAllocated=true := by
        by_contra ht
        unfold kernelStart at hu
        rw [if_neg (Nat.not_lt.2 hfr),if_pos (by simpa using ht)] at hu
        cases hu
      rw [kernelStart_switch hfr ht hidle hinit] at hu
      unfold switchToInit at hu
      split at hu
      · cases hu
      · rename_i hs
        exact ⟨hia,hna (by simpa using hs)⟩
    · exact absurd hu (kernelStart_init hidle hcpu)
  · exact absurd hu (kernelStart_idle hcpu)

/-- Boot takes a frame for idle, two for a kernel stack and five for the image. -/
theorem boot_demand_sample : (kernelStart sampleMachine sampleBoot).cpu=.user ∧
    (freeFrames (kernelStart sampleMachine sampleBoot).memory).card+8=
      (freeFrames (emptyKernel sampleMachine sampleBoot).memory).card := by
  have hb : LoadInfoOk sampleMachine sampleBoot.initEnv :=
    (imageTest_sound (kernelStart sampleMachine sampleBoot) _ .resume (by decide)).2
  have hframes : 1+sampleMachine.kernelStackPages+
      imageFrames sampleMachine sampleImage sampleBoot.args=8 := by decide +kernel
  have hfits : BootFits sampleMachine sampleBoot sampleImage :=
    ⟨by decide,rfl,⟨by decide,rfl,by decide⟩,⟨by decide,rfl,by decide,rfl,rfl⟩,
      ⟨rfl,rfl,by decide,by decide,rfl⟩,by decide +kernel,by decide +kernel,by decide +kernel⟩
  obtain ⟨hiff,hcount⟩ := boot_demand hb
  have hsum := hcount sampleImage hfits
  rw [hframes] at hsum
  exact ⟨hiff.2 ⟨sampleImage,hfits⟩,hsum⟩

end Boots

end Yalnix.FrameDemand

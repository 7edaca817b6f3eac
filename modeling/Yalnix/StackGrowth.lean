import Yalnix.UserBreak
import Yalnix.Exits

/-!
# Growing a stack

A fault between the break and the stack lets the stack grow down to it, a page
and a frame at a time. With a frame for each page the process goes on and owns
exactly these frames; with fewer it takes all that are free and ends.
-/

namespace Yalnix.StackGrowth

open Framework FrameTable KernelState Scheduling Ipc Terminals ProcessLifetime ProgramLoading
open Syscalls Traps KernelStart Coherence Operations OperationCoherence CallOperations
open RunInvariants Traces AddressSpaces TableLoops FramePartition ScratchPage MappedFrames UserBreak
open Continuations KernelEntries

variable {M : Machine} {env : Env} {m m₁ m' : Memory} {pt pt' : PageTable} {page : ℤ} {n f : ℕ}
  {v : UserSpace} {addr : ℕ} {s t : Kernel} {u : UserContext} {D E : ℕ → Prop} {pfn : ℕ → ℕ}

section Frames

/-- Each of some slots gets a free frame of its own, and nothing else is taken. -/
structure FramesTaken (D : ℕ → Prop) (pfn : ℕ → ℕ) (m m' : Memory) : Prop where
  /-- The frames were free. -/
  free : ∀ i,D i → pfn i∈freeFrames m
  /-- No two slots share a frame. -/
  distinct : ∀ i j,D i → D j → pfn i=pfn j → i=j
  /-- These frames are in use now, beside those that were. -/
  frames : ∀ f,m'.frameAllocated f=true ↔ m.frameAllocated f=true ∨ ∃ i,D i ∧ pfn i=f
  /-- The rest of the memory is as it was. -/
  rest : m'={m with frameAllocated := m'.frameAllocated}

/-- Where there is no slot, no frame is taken. -/
theorem FramesTaken.none (h : ∀ i,¬D i) : FramesTaken D pfn m m :=
  ⟨fun i hi => absurd hi (h i),fun i _ hi => absurd hi (h i),
    fun _ => ⟨.inl,fun hf => hf.elim id (fun ⟨i,hi,_⟩ => absurd hi (h i))⟩,rfl⟩

/-- FrameAlloc takes the frame of the first slot. -/
theorem FramesTaken.cons {i : ℕ} (ha : frameAlloc m=some (pfn i,m₁))
    (h : FramesTaken D pfn m₁ m') (hE : ∀ j,E j ↔ j=i ∨ D j) : FramesTaken E pfn m m' := by
  obtain ⟨hfree,hlt,rfl⟩ := frameAlloc_eq ha
  have hin : ∀ j,D j → pfn j∈freeFrames m ∧ pfn j≠pfn i := by
    intro j hj
    obtain ⟨hr,hf⟩ := Finset.mem_filter.1 (h.free j hj)
    dsimp only at hr hf
    by_cases he : pfn j=pfn i
    · rw [he,Function.update_self] at hf
      cases hf
    · rw [Function.update_of_ne he] at hf
      exact ⟨Finset.mem_filter.2 ⟨hr,hf⟩,he⟩
  refine ⟨fun j hj => ?_,fun j k hj hk he => ?_,fun f => ?_,h.rest⟩
  · rcases (hE j).1 hj with rfl|hj
    · exact Finset.mem_filter.2 ⟨Finset.mem_range.2 hlt,hfree⟩
    · exact (hin j hj).1
  · rcases (hE j).1 hj with rfl|hj
    · rcases (hE k).1 hk with rfl|hk
      · rfl
      · exact absurd he.symm (hin k hk).2
    · rcases (hE k).1 hk with rfl|hk
      · exact absurd he (hin j hj).2
      · exact h.distinct j k hj hk he
  · rw [h.frames f]
    dsimp only
    by_cases hf : f=pfn i
    · rw [hf,Function.update_self]
      exact ⟨fun _ => .inr ⟨i,(hE i).2 (.inl rfl),rfl⟩,fun _ => .inl rfl⟩
    · rw [Function.update_of_ne hf]
      refine or_congr Iff.rfl ⟨fun ⟨j,hj,he⟩ => ⟨j,(hE j).2 (.inr hj),he⟩,fun ⟨j,hj,he⟩ => ?_⟩
      rcases (hE j).1 hj with rfl|hj
      · exact absurd he.symm hf
      · exact ⟨j,hj,he⟩

/-- The loop of ProcessGrowStack maps a page and a frame at a time, until there
are enough pages or no more frames. -/
theorem growStackPages_exact (h0 : -1≤page-n) (h1 : page<M.maxPtLen) :
    ∃ m' pt',growStackPages M n page m pt=(m',pt',decide (n≤(freeFrames m).card)) ∧
      (freeFrames m').card=(freeFrames m).card-n ∧
      FramesTaken (fun i : ℕ => page-min n (freeFrames m).card< i ∧ i≤page) (fun i => (pt' i).pfn)
        m m' ∧
      (∀ i : ℕ,page-min n (freeFrames m).card< i → i≤page →
        pt' i=⟨true,protReadWrite,(pt' i).pfn⟩) ∧
      ∀ i : ℕ,¬(page-min n (freeFrames m).card< i ∧ i≤page) → pt' i=pt i := by
  induction n generalizing page m pt with
  | zero =>
    have hk : ((min 0 (freeFrames m).card : ℕ) : ℤ)=0 := by omega
    refine ⟨m,pt,?_,by omega,.none (fun i => by omega),fun i h₁ h₂ => by omega,fun _ _ => rfl⟩
    unfold growStackPages
    rw [decide_eq_true (Nat.zero_le _)]
  | succ n ih =>
    by_cases hc : (freeFrames m).card=0
    · have hk : ((min (n+1) (freeFrames m).card : ℕ) : ℤ)=0 := by omega
      refine ⟨m,pt,?_,by omega,.none (fun i => by omega),fun i h₁ h₂ => by omega,fun _ _ => rfl⟩
      unfold growStackPages
      rw [frameAlloc_none hc,decide_eq_false (by omega)]
    · obtain ⟨f,m₁,ha,hcount⟩ := frameAlloc_some (Nat.pos_of_ne_zero hc)
      have hmap : memoryMapPage M pt page f protReadWrite=
          some (Function.update pt page.toNat ⟨true,protReadWrite,f⟩) := by
        unfold memoryMapPage
        exact if_neg (by push_cast at h0; omega)
      push_cast at h0
      obtain ⟨m',pt',he,hfew,htaken,hin,hout⟩ := @ih m₁
        (Function.update pt page.toNat ⟨true,protReadWrite,f⟩) (page-1) (by omega) (by omega)
      have hfirst : pt' page.toNat=⟨true,protReadWrite,f⟩ := by
        rw [hout _ (by omega),Function.update_self]
      refine ⟨m',pt',?_,by omega,?_,fun i h₁ h₂ => ?_,fun i hi => ?_⟩
      · unfold growStackPages
        rw [ha]
        dsimp only
        rw [hmap]
        dsimp only
        rw [he]
        congr 2
        exact decide_eq_decide.2 (by omega)
      · refine htaken.cons (i := page.toNat) (by rwa [hfirst]) (fun i => ?_)
        omega
      · by_cases hip : (i : ℤ)=page
        · have hi : i=page.toNat := by omega
          rw [hi,hfirst]
        · exact hin i (by omega) (by omega)
      · rw [hout i (by omega),update_page (by omega),if_neg (by omega)]

end Frames

section Spaces

/-- The fault is between the break and the stack. -/
def StackGap (M : Machine) (v : UserSpace) (addr : ℕ) : Prop :=
  M.vmem1Base≤addr ∧ addr< M.vmem1Limit ∧ breakPage M v< M.region1Page addr ∧
    M.region1Page addr<v.userStackLowPage

/-- The pages from the fault up to the stack. -/
def missingPages (M : Machine) (v : UserSpace) (addr : ℕ) : ℕ :=
  (v.userStackLowPage-M.region1Page addr).toNat

/-- The fault is between the break and the stack, and there is a free frame for
each page. -/
def StackFits (M : Machine) (m : Memory) (v : UserSpace) (addr : ℕ) : Prop :=
  StackGap M v addr ∧ missingPages M v addr≤(freeFrames m).card

/-- The page is one of those that are mapped, from the stack downwards. -/
def StackPage (M : Machine) (m : Memory) (v : UserSpace) (addr i : ℕ) : Prop :=
  v.userStackLowPage-min (missingPages M v addr) (freeFrames m).card≤ i ∧ i<v.userStackLowPage

/-- What the growth of a stack did, with or without enough frames. -/
structure StackGrown (M : Machine) (m : Memory) (v : UserSpace) (addr : ℕ) (m' : Memory)
    (v' : UserSpace) : Prop where
  /-- Each new page has a frame of its own, and no other frame was taken. -/
  taken : FramesTaken (StackPage M m v addr) (fun i => (v'.region1Pt i).pfn) m m'
  /-- The new pages can be read and written. -/
  mapped : ∀ i,StackPage M m v addr i →
    v'.region1Pt i=⟨true,protReadWrite,(v'.region1Pt i).pfn⟩
  /-- The other pages are as they were. -/
  others : ∀ i,¬StackPage M m v addr i → v'.region1Pt i=v.region1Pt i
  /-- The frames that are left. -/
  left : (freeFrames m').card=(freeFrames m).card-missingPages M v addr
  /-- The stack begins at the fault if there were enough frames. -/
  low : v'.userStackLowPage=if missingPages M v addr≤(freeFrames m).card
    then M.region1Page addr else v.userStackLowPage
  /-- Nothing else of the address space changed. -/
  rest : v'={v with region1Pt := v'.region1Pt, userStackLowPage := v'.userStackLowPage}

/-- A fault in the gap. -/
theorem growStack_gap (h : LayoutOk M v) (hg : StackGap M v addr) :
    ∃ m' v',growStack M m v addr=(m',v',decide (missingPages M v addr≤(freeFrames m).card)) ∧
      StackGrown M m v addr m' v' := by
  obtain ⟨hbase,hlimit,hbrk,hlow⟩ := hg
  have hz := h.redZone
  have hl := h.limit
  have h0 := h.start
  have hle : M.region1Page v.userHeapStart≤M.region1Page v.userBrk := h.heap_le
  unfold breakPage at hbrk
  obtain ⟨m',pt',he,hleft,htaken,hin,hout⟩ := @growStackPages_exact M m v.region1Pt
    (v.userStackLowPage-1) (missingPages M v addr) (by unfold missingPages; omega) (by omega)
  have hnew : ∀ i : ℕ,StackPage M m v addr i ↔
      v.userStackLowPage-1-min (missingPages M v addr) (freeFrames m).card< i ∧
        i≤v.userStackLowPage-1 := by
    intro i
    unfold StackPage
    omega
  have htaken' : FramesTaken (StackPage M m v addr) (fun i => (pt' i).pfn) m m' := by
    rwa [funext fun i => propext (hnew i)]
  unfold growStack
  rw [if_neg (by omega),upToPage_of_dvd h.aligned,if_neg (by omega)]
  unfold missingPages at he
  rw [he]
  by_cases hc : missingPages M v addr≤(freeFrames m).card
  · have hc' := hc
    unfold missingPages at hc'
    rw [decide_eq_true hc,decide_eq_true hc']
    exact ⟨_,_,rfl,htaken',fun i hi => hin i ((hnew i).1 hi).1 ((hnew i).1 hi).2,
      fun i hi => hout i (fun hx => hi ((hnew i).2 hx)),hleft,(if_pos hc).symm,rfl⟩
  · have hc' := hc
    unfold missingPages at hc'
    rw [decide_eq_false hc,decide_eq_false hc']
    exact ⟨_,_,rfl,htaken',fun i hi => hin i ((hnew i).1 hi).1 ((hnew i).1 hi).2,
      fun i hi => hout i (fun hx => hi ((hnew i).2 hx)),hleft,(if_neg hc).symm,rfl⟩

/-- A fault outside the gap above the heap does not grow the stack. -/
theorem growStack_outside (ha : M.pageSize∣v.userBrk) (hg : ¬StackGap M v addr) :
    growStack M m v addr=(m,v,false) := by
  unfold StackGap breakPage at hg
  unfold growStack
  split
  · rfl
  · rw [upToPage_of_dvd ha,if_pos (by omega)]

/-- Idle has no stack that could grow. -/
theorem gap_idle (h : v.userStackLowPage=0) : ¬StackGap M v addr := by
  rintro ⟨hbase,_,_,hlow⟩
  rw [h] at hlow
  have hnn : 0≤M.region1Page addr := by
    unfold Machine.region1Page
    exact Int.ediv_nonneg (by omega) (by omega)
  omega

end Spaces

section Runs

/-- The address space of the running process in every run with sane images. -/
theorem run_space (h : Run M (fun b => LoadInfoOk M b.initEnv)
      (fun _ env _ => env.switchOk=true ∧ LoadInfoOk M env) s) (hu : s.cpu=.user) :
    Settled M s ∧ ((s.space s.currentProcess).userStackLowPage=0 ∨
      LayoutOk M (s.space s.currentProcess)) := by
  obtain ⟨hset,hsp⟩ := run_invariant (layout_allowed M)
    (P := fun s => (s.cpu=.user ∨ s.cpu=.kernel) → Spaces M s)
    (fun b p q pfn pfns m₁ m₂ m v u hb hf => fun _ => booted_spaces hb hf)
    (fun c s t hc hp hop => op_spaces (fun env he => he env rfl) hc hp hop) h
  have hok := hsp (.inl hu)
  by_cases hi : s.currentProcess=s.idleProcess
  · refine ⟨hset,.inl ?_⟩
    rw [hi]
    exact hok.idle.2
  · exact ⟨hset,.inr (hok.layout _ hset.ready.current_live hi (hset.user hu).toRunnable.not_zombie)⟩

/-- ProcessExitCurrent keeps the frames and the address spaces. It halts the
machine for init and aborts for idle, and any other process has ended with the
status. -/
theorem processExitCurrent_keeps (hc : Coherent M s) (ha : Active s) (hs : env.switchOk=true)
    (status : ℤ) :
    (processExitCurrent M env status s).space=s.space ∧
      (processExitCurrent M env status s).memory={s.memory with
        kernelRegion0Pt := (processExitCurrent M env status s).memory.kernelRegion0Pt} ∧
      (s.currentProcess=s.idleProcess →
        (processExitCurrent M env status s).cpu=.aborted "idle process exit") ∧
      (s.currentProcess≠s.idleProcess → s.currentProcess=s.initProcess →
        (processExitCurrent M env status s).cpu=.halted) ∧
      (s.currentProcess≠s.idleProcess → s.currentProcess≠s.initProcess →
        (processExitCurrent M env status s).state s.currentProcess=.zombie ∧
          (processExitCurrent M env status s).exitStatus s.currentProcess=status ∧
          (processExitCurrent M env status s).currentProcess≠s.currentProcess) := by
  by_cases hi : s.currentProcess=s.idleProcess
  · unfold processExitCurrent
    rw [if_pos (.inr hi)]
    exact ⟨rfl,rfl,fun _ => rfl,fun hn => absurd hi hn,fun hn => absurd hi hn⟩
  · by_cases hn : s.currentProcess=s.initProcess
    · unfold processExitCurrent
      rw [if_neg (not_or.2 ⟨hc.ready.ne_null hc.ready.current_live,hi⟩),if_pos hn]
      exact ⟨rfl,rfl,fun hx => absurd hx hi,fun _ _ => rfl,fun _ hx => absurd hn hx⟩
    · obtain ⟨log,he⟩ := Exits.processExitCurrent_exact hc ha hs hi hn status
      have hne := Exits.successor_ne hc ha hi
      rw [he]
      refine ⟨rfl,rfl,fun hx => absurd hx hi,fun _ hx => absurd hx hn,fun _ _ => ⟨?_,?_,hne⟩⟩
      · dsimp only [Exits.exitState]
        rw [if_neg hne.symm,if_pos rfl]
      · dsimp only [Exits.exitState]
        exact Function.update_self ..

/-- What a fault does: the memory and the address space that ProcessGrowStack
leaves, and the process that goes on with them or has ended. -/
structure FaultExact (M : Machine) (s : Kernel) (u : UserContext) (m : Memory) (v : UserSpace)
    (t : Kernel) : Prop where
  /-- Between the break and the stack, pages are mapped as far as there are frames. -/
  gap : StackGap M (s.space s.currentProcess) u.addr →
    StackGrown M s.memory (s.space s.currentProcess) u.addr m v
  /-- Elsewhere nothing is mapped. -/
  outside : ¬StackGap M (s.space s.currentProcess) u.addr →
    m=s.memory ∧ v=s.space s.currentProcess
  /-- If the fault fits, the process goes on with its registers, and nothing else
  has changed. -/
  resumed : StackFits M s.memory (s.space s.currentProcess) u.addr →
    t={s with
      userContext := Function.update s.userContext s.currentProcess u
      space := Function.update s.space s.currentProcess v
      memory := m
      uctxt := u}
  /-- If not, what was mapped stays mapped. The machine aborts for idle and halts
  for init, and any other process has ended with an error. -/
  ended : ¬StackFits M s.memory (s.space s.currentProcess) u.addr →
    t.space=Function.update s.space s.currentProcess v ∧
      t.memory={m with kernelRegion0Pt := t.memory.kernelRegion0Pt} ∧
      (s.currentProcess=s.idleProcess → t.cpu=.aborted "idle process exit") ∧
      (s.currentProcess≠s.idleProcess → s.currentProcess=s.initProcess → t.cpu=.halted) ∧
      (s.currentProcess≠s.idleProcess → s.currentProcess≠s.initProcess →
        t.state s.currentProcess=.zombie ∧ t.exitStatus s.currentProcess=ERROR ∧
          t.currentProcess≠s.currentProcess)

/-- TrapMemory resumes the process or ends it as ProcessGrowStack has said. -/
theorem trapMemory_exact (hc : Coherent M s) (ha : Active s) (hu : s.cpu=.user)
    (hs : env.switchOk=true) {v : UserSpace} {ok : Bool}
    (hgrow : growStack M s.memory (s.space s.currentProcess) u.addr=(m,v,ok))
    (hok : ok=true ↔ StackFits M s.memory (s.space s.currentProcess) u.addr)
    (hgap : StackGap M (s.space s.currentProcess) u.addr →
      StackGrown M s.memory (s.space s.currentProcess) u.addr m v)
    (hout : ¬StackGap M (s.space s.currentProcess) u.addr →
      m=s.memory ∧ v=s.space s.currentProcess) :
    FaultExact M s u m v (trapMemory M env u s) := by
  have hsave := saveContext_current (s := s) u (hc.ready.ne_null hc.ready.current_live)
  unfold trapMemory
  rw [hgrow,hsave]
  refine ⟨hgap,hout,fun hfit => ?_,fun hfit => ?_⟩
  · rw [if_pos (hok.2 hfit)]
    unfold returnToUser
    rw [←hu]
    rfl
  · rw [if_neg (fun hx => hfit (hok.1 hx))]
    exact @processExitCurrent_keeps M env {s.setUserContext s.currentProcess u with
      memory := m
      space := Function.update s.space s.currentProcess v} {hc with} {ha with} hs ERROR

/-- In every run a fault between the break and the stack maps the pages from the
stack downwards, each with a free frame of its own, until it is reached or no
frame is left; the process goes on exactly if it is reached, and otherwise ends. -/
theorem stack_growth (h : Run M (fun b => LoadInfoOk M b.initEnv)
      (fun _ env _ => env.switchOk=true ∧ LoadInfoOk M env) s) (hu : s.cpu=.user)
    (hs : env.switchOk=true) (hv : u.vector=.memory) :
    ∃ m v,FaultExact M s u m v (kernelStep M env s (.trap u)) := by
  obtain ⟨hset,hspace⟩ := run_space h hu
  have hstep : kernelStep M env s (.trap u)=trapMemory M env u s := by
    dsimp only [kernelStep,trap]
    rw [hv]
  rw [hstep]
  have houtside : growStack M s.memory (s.space s.currentProcess) u.addr=
      (s.memory,s.space s.currentProcess,false) →
      ¬StackGap M (s.space s.currentProcess) u.addr →
      ∃ m v,FaultExact M s u m v (trapMemory M env u s) := fun hgrow hg =>
    ⟨_,_,trapMemory_exact hset.toCoherent (hset.user hu) hu hs hgrow
      ⟨fun hx => (by cases hx),fun hx => absurd hx.1 hg⟩ (fun hx => absurd hx hg)
      (fun _ => ⟨rfl,rfl⟩)⟩
  rcases hspace with hlow|hlayout
  · exact houtside (growStack_idle hlow) (gap_idle hlow)
  · by_cases hg : StackGap M (s.space s.currentProcess) u.addr
    · obtain ⟨m,v,hgrow,hgrown⟩ := @growStack_gap M s.memory _ _ hlayout hg
      refine ⟨m,v,trapMemory_exact hset.toCoherent (hset.user hu) hu hs hgrow ?_ (fun _ => hgrown)
        (fun hx => absurd hg hx)⟩
      rw [decide_eq_true_iff]
      exact ⟨fun hx => ⟨hg,hx⟩,fun hx => hx.2⟩
    · exact houtside (growStack_outside hlayout.aligned hg) hg

/-- The stack of the initial process grows by 27 pages and takes 27 frames. -/
theorem stack_growth_sample : ∃ s,s=kernelStart sampleMachine sampleBoot ∧
    ((kernelStep sampleMachine (sampleEnv 0 0) s (.trap {sampleContext .memory 0 0 0 0 with
      addr := 0x1c8000})).space 2).userStackLowPage=100 ∧
    (freeFrames (kernelStep sampleMachine (sampleEnv 0 0) s (.trap {sampleContext .memory 0 0 0 0
      with addr := 0x1c8000})).memory).card+27=(freeFrames s.memory).card := by
  have hb : LoadInfoOk sampleMachine sampleBoot.initEnv :=
    (imageTest_sound (kernelStart sampleMachine sampleBoot) _ .resume (by decide)).2
  obtain ⟨m,v,hx⟩ := @stack_growth sampleMachine (sampleEnv 0 0)
    (kernelStart sampleMachine sampleBoot) {sampleContext .memory 0 0 0 0 with addr := 0x1c8000}
    (.boot sampleBoot hb sampleBoot_user) sampleBoot_user rfl rfl
  have hcur : (kernelStart sampleMachine sampleBoot).currentProcess=2 := by decide +kernel
  have hpages : missingPages sampleMachine ((kernelStart sampleMachine sampleBoot).space 2)
      0x1c8000=27 := by decide +kernel
  have hfree : 27≤(freeFrames (kernelStart sampleMachine sampleBoot).memory).card := by
    decide +kernel
  have hgap : StackGap sampleMachine ((kernelStart sampleMachine sampleBoot).space 2) 0x1c8000 :=
    ⟨by decide,by decide,by decide +kernel,by decide +kernel⟩
  have hgrown := hx.gap (by rwa [hcur])
  have hstep := hx.resumed ⟨by rwa [hcur],by rwa [hcur,hpages]⟩
  have hlow := hgrown.low
  have hleft := hgrown.left
  rw [hcur] at hlow hleft hstep
  dsimp only at hlow hleft
  rw [hpages,if_pos hfree] at hlow
  rw [hpages] at hleft
  refine ⟨_,rfl,?_,?_⟩
  · rw [hstep]
    dsimp only
    rw [Function.update_self,hlow]
    decide
  · rw [hstep]
    dsimp only
    omega

end Runs

end Yalnix.StackGrowth
